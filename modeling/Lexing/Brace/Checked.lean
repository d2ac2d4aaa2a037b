import Lexing.Brace.Grammar
import Lexing.Offsets

/-! The brace language on offsets that are machine words. A scan is the same as without
checks, but every sum, every range and every move of its cursor is checked, and so is its
answer. -/

namespace Lexing.Brace

/-- The language with some features, on offsets up to a limit. -/
structure Checked where
  limit : Nat
  features : Features

namespace Checked

section Scan

variable (limit : Nat) (features : Features)

def skipGapWithin : Nat → Cursor → Except Misuse Cursor
  | 0, c => return c
  | n + 1, c => do
      let c ← Offsets.skipWhitespace limit c
      if features.lineComments then
        match ← atComment c with
        | true => skipGapWithin n (← Offsets.discardUntil limit c (.ofList [lineFeed]))
        | false => return c
      else return c

def skipGap (c : Cursor) : Except Misuse Cursor :=
  skipGapWithin limit features (c.rest.length + 1) c

/-- The token that ends at `stop`, from a cursor that stays where it is. -/
def token (c : Cursor) (tag : Kinds) (start : Position) (stop : Nat) :
    Except Misuse (Item Kinds × Cursor) := do
  let token ← c.token tag start stop
  return (.ok token, c)

def emitLexeme (c : Cursor) : Except Misuse (Item Kinds × Cursor) := do
  let start := c.position
  let (first, c) ← Offsets.next limit c
  match punctuation? first with
  | some kind =>
      let stop ← Offsets.add limit start.offset 1
      token c (.ofKind kind) start stop
  | none =>
      if first = quoteMark ∧ features.quotedStrings then
        match ← Offsets.readQuoted limit c start.offset quoteMark with
        | (some stop, c) => token c (.ofKind .quoted) start stop
        | (none, c) => return (.error ⟨.unterminated quoteMark, start⟩, c)
      else
        match ← Offsets.classify limit c start.offset (delimiters features) lexemes with
        | (some (tag, stop), c) => token c tag start stop
        | (none, c) => return (.error (c.unrecognized start), c)

def emit (c : Cursor) : Except Misuse (Item Kinds × Cursor) := do
  let c ← skipGap limit features c
  if c.atEnd then return (.ok (c.sentinel (.ofKind .endOfInput)), c)
  else emitLexeme limit features c

end Scan

/-- Where a token was scanned, the cursor has to be in its source. -/
def inSource : Item Kinds × Cursor → Except Misuse (Item Kinds × Cursor)
  | (.ok token, c) =>
      if c.source.length < c.offset then .error .strayCursor else return (.ok token, c)
  | (.error e, c) => return (.error e, c)

/-- A scan that fails a check leaves its cursor where it was. -/
def scan (rules : Checked) (c : Cursor) : Emission Checked Kinds :=
  match emit rules.limit rules.features c >>= inSource with
  | .ok (item, c') => ⟨.ok item, rules, c'⟩
  | .error misuse => ⟨.error misuse, rules, c⟩

instance : Grammar Checked Kinds := ⟨scan⟩

end Checked

end Lexing.Brace
