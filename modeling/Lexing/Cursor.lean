import Lexing.Shape
import Lexing.Token

/-! A place in a source that moves forward over its bytes and keeps count of
lines and columns. Lexemes are read from any offset, also from one that the
cursor has passed already; a reader that finds none leaves the cursor alone. -/

namespace Lexing

structure Cursor where
  source : Source
  position : Position
  deriving DecidableEq

namespace Cursor

def ofSource (source : Source) : Cursor := ⟨source, .start⟩

def offset (c : Cursor) : Nat := c.position.offset

def rest (c : Cursor) : List UInt8 := c.source.bytes.drop c.offset

def atEnd (c : Cursor) : Bool := c.rest.isEmpty

def reset (c : Cursor) : Cursor := ofSource c.source

/-- The text of the bytes from `start` up to `stop`. -/
def slice (c : Cursor) (start stop : Nat) : Except Misuse String :=
  if stop < start then .error (.reversedRange start stop)
  else match c.source.cut? start stop with
    | some text => .ok text
    | none => .error .brokenRange

def remainder (c : Cursor) : Except Misuse String := c.slice c.offset c.source.length

def peek? (c : Cursor) : Option UInt8 := c.rest.head?

def next (c : Cursor) : Except Misuse (UInt8 × Cursor) :=
  match c.rest with
  | [] => .error (.readAtEnd c.offset)
  | b :: _ => .ok (b, { c with position := c.position.step b })

/-- Consumes the bytes before `target`; a target that is not ahead changes nothing, and
one behind the end stands for the end. `Offsets.advanceTo` refuses the latter. -/
def advanceTo (c : Cursor) (target : Nat) : Cursor :=
  { c with position := c.position.advance (c.rest.take (target - c.offset)) }

def discardWhile (c : Cursor) (p : UInt8 → Bool) : Cursor :=
  c.advanceTo (c.offset + (c.rest.takeWhile p).length)

def discardUntil (c : Cursor) (stops : StopSet) : Cursor :=
  c.discardWhile fun b => !stops.contains b

def skipWhitespace (c : Cursor) : Cursor := c.discardWhile StopSet.whitespace.contains

/-- Reads a lexeme of some shape at `start`. The answer is its end, with the
cursor moved there unless it is ahead of it. -/
def read (c : Cursor) (shape : Shape) (start : Nat) (stops : StopSet) : Option (Nat × Cursor) :=
  (shape.length? stops (c.source.bytes.drop start)).map fun n =>
    (start + n, c.advanceTo (start + n))

/-- Reads a string between two quotes, the first of them at `start`. -/
def readQuoted (c : Cursor) (start : Nat) (quote : UInt8) : Except Misuse (Option (Nat × Cursor)) :=
  if isAscii quote then
    .ok <| (Shape.quotedLength? quote (c.source.bytes.drop start)).map fun n =>
      (start + n, c.advanceTo (start + n))
  else .error .nonAsciiQuote

/-- Reads a lexeme of the first shape that fits, and gives it that shape's tag. -/
def classify {τ : Type} (c : Cursor) (start : Nat) (stops : StopSet) (chain : List (τ × Shape)) :
    Option (τ × Nat × Cursor) :=
  chain.findSome? fun (tag, shape) => (c.read shape start stops).map (tag, ·)

def token {τ : Type} (c : Cursor) (tag : τ) (start : Position) (stop : Nat) :
    Except Misuse (Token τ) := do
  let text ← c.slice start.offset stop
  Token.ofText tag text start

def sentinel {τ : Type} (c : Cursor) (tag : τ) : Token τ := .sentinel tag c.position

/-- The error for the byte at some position, which counts as 0 past the end. -/
def unrecognized (c : Cursor) (place : Position) : LexError :=
  ⟨.unrecognized ((c.source.bytes.drop place.offset).head?.getD 0), place⟩

end Cursor

end Lexing
