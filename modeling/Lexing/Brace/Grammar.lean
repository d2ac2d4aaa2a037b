import Lexing.Brace.Kind
import Lexing.Tokenizer

/-! The brace language: numbers, words and quoted strings between braces, equals
signs and semicolons, with comments from `//` to the end of the line. -/

namespace Lexing.Brace

/-- The two parts of the language that can be switched off. -/
structure Features where
  lineComments : Bool
  quotedStrings : Bool
  deriving DecidableEq, Repr

namespace Features

def all : Features := ⟨true, true⟩

/-- Without comments and quoted strings, slashes and quotes are parts of words. -/
def plain : Features := ⟨false, false⟩

end Features

def quoteMark : UInt8 := 34

/-- The tokens that are one byte each: braces, the equals sign and the semicolon. -/
def punctuation : List (UInt8 × Kind) :=
  [(123, .openBrace), (125, .closeBrace), (61, .equals), (59, .semicolon)]

def punctuation? (b : UInt8) : Option Kind := punctuation.lookup b

/-- The bytes that end a number or a word. -/
def delimiters (features : Features) : StopSet :=
  let always := (StopSet.ofList (punctuation.map Prod.fst)).union .whitespace
  if features.quotedStrings then always.insert quoteMark else always

/-- The shapes of a lexeme without quotes, the narrowest first. -/
def lexemes : List (Kinds × Shape) :=
  [(.ofKind .integer, .integer), (.ofKind .decimal, .decimal), (.ofKind .string, .word)]

/-- A comment starts at the cursor, which has to be between characters. -/
def atComment (c : Cursor) : Except Misuse Bool :=
  match c.source.suffix? c.offset with
  | some ('/' :: '/' :: _) => .ok true
  | some _ => .ok false
  | none => .error .brokenRange

def skipLine (c : Cursor) : Cursor := c.discardUntil (.ofList [lineFeed])

def skipGapWithin (features : Features) : Nat → Cursor → Except Misuse Cursor
  | 0, c => .ok c
  | n + 1, c =>
      let c := c.skipWhitespace
      if features.lineComments then
        match atComment c with
        | .ok true => skipGapWithin features n (skipLine c)
        | .ok false => .ok c
        | .error misuse => .error misuse
      else .ok c

/-- Consumes whitespace and, where they are part of the language, comments. Each
comment is longer than its mark, so there are fewer of them than bytes. -/
def skipGap (features : Features) (c : Cursor) : Except Misuse Cursor :=
  skipGapWithin features (c.rest.length + 1) c

def emitToken (features : Features) (c : Cursor) (tag : Kinds) (start : Position) (stop : Nat) :
    Emission Features Kinds :=
  ⟨(c.token tag start stop).map .ok, features, c⟩

/-- Scans the lexeme at the cursor, which is not at the end of the input. -/
def emitLexeme (features : Features) (c : Cursor) : Emission Features Kinds :=
  let start := c.position
  match c.next with
  | .error misuse => ⟨.error misuse, features, c⟩
  | .ok (first, c) =>
      match punctuation? first with
      | some kind => emitToken features c (.ofKind kind) start (start.offset + 1)
      | none =>
          if first = quoteMark ∧ features.quotedStrings then
            match c.readQuoted start.offset quoteMark with
            | .ok (some (stop, c)) => emitToken features c (.ofKind .quoted) start stop
            | .ok none => ⟨.ok (.error ⟨.unterminated quoteMark, start⟩), features, c⟩
            | .error misuse => ⟨.error misuse, features, c⟩
          else
            match c.classify start.offset (delimiters features) lexemes with
            | some (tag, stop, c) => emitToken features c tag start stop
            | none => ⟨.ok (.error (c.unrecognized start)), features, c⟩

def emit (features : Features) (c : Cursor) : Emission Features Kinds :=
  match skipGap features c with
  | .error misuse => ⟨.error misuse, features, c⟩
  | .ok c =>
      if c.atEnd then ⟨.ok (.ok (c.sentinel (.ofKind .endOfInput))), features, c⟩
      else emitLexeme features c

instance : Grammar Features Kinds := ⟨emit⟩

end Brace

abbrev BraceTokenizer := Tokenizer Brace.Features Brace.Kinds

end Lexing
