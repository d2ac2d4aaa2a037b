import Lexing.Tokenizer

/-! A grammar that is given by a table: which bytes are punctuation, which byte
quotes strings, which bytes end a word, and which shapes are tried in turn. It
counts the scans that found something. -/

namespace Lexing

structure Table where
  stops : StopSet
  punctuation : List UInt8
  quote : Option UInt8
  shapes : List Shape
  deriving DecidableEq

namespace Table

inductive Tag
  | integer
  | decimal
  | word
  | quoted
  | punctuation
  | endOfInput
  deriving DecidableEq, Repr

def Tag.name : Tag → String
  | .integer => "Integer"
  | .decimal => "Decimal"
  | .word => "Word"
  | .quoted => "Quoted"
  | .punctuation => "Punct"
  | .endOfInput => "Eof"

instance : TagName Tag := ⟨Tag.name⟩

def Tag.ofShape : Shape → Tag
  | .integer => .integer
  | .decimal => .decimal
  | .word => .word

/-- A table whose words end at the given bytes and at whitespace. -/
def ofBytes (stops punctuation : List UInt8) (quote : Option UInt8) (shapes : List Shape) :
    Except Misuse Table :=
  (StopSet.ofAscii stops).map fun stops => ⟨stops.union .whitespace, punctuation, quote, shapes⟩

structure State where
  table : Table
  emitted : Nat

def emitToken (s : State) (c : Cursor) (tag : Tag) (start : Position) (stop : Nat) :
    Emission State Tag :=
  ⟨(c.token tag start stop).map .ok, s, c⟩

/-- Scans the lexeme whose first byte has just been consumed. -/
def emitLexeme (s : State) (c : Cursor) (start : Position) (first : UInt8) : Emission State Tag :=
  if first ∈ s.table.punctuation then emitToken s c .punctuation start (start.offset + 1)
  else if s.table.quote = some first then
    match c.readQuoted start.offset first with
    | .ok (some (stop, c)) => emitToken s c .quoted start stop
    | .ok none => ⟨.ok (.error ⟨.unterminated first, start⟩), s, c⟩
    | .error misuse => ⟨.error misuse, s, c⟩
  else
    let chain := s.table.shapes.map fun shape => (Tag.ofShape shape, shape)
    match c.classify start.offset s.table.stops chain with
    | some (tag, stop, c) => emitToken s c tag start stop
    | none => ⟨.ok (.error (c.unrecognized start)), s, c⟩

def emit (s : State) (c : Cursor) : Emission State Tag :=
  let c := c.skipWhitespace
  if c.atEnd then ⟨.ok (.ok (c.sentinel .endOfInput)), s, c⟩
  else
    let s := { s with emitted := s.emitted + 1 }
    match c.next with
    | .error misuse => ⟨.error misuse, s, c⟩
    | .ok (first, c') => emitLexeme s c' c.position first

instance : Grammar State Tag := ⟨emit⟩

end Table

end Lexing
