import Lexing.StopSet

/-! The shapes of lexemes. Each shape measures the lexeme at the head of a list
of bytes. Numbers have to be terminated: behind them comes a stop or the end, so
that `42abc` starts with no number. -/

namespace Lexing

inductive Shape
  /-- An optional minus and digits. -/
  | integer
  /-- An integer, or an optional minus and digits around a point with at least
  one digit behind it. -/
  | decimal
  /-- Whatever comes before the next stop. -/
  | word
  deriving DecidableEq, Repr

def isDigit (b : UInt8) : Bool := 48 ≤ b && b ≤ 57

def minusSign : UInt8 := 45
def decimalPoint : UInt8 := 46

def signLength (bs : List UInt8) : Nat := if bs.head? = some minusSign then 1 else 0

def digitCount (bs : List UInt8) : Nat := (bs.takeWhile isDigit).length

/-- A lexeme may end here: at a stop, or at the end of the input. -/
def terminated (stops : StopSet) : List UInt8 → Bool
  | [] => true
  | b :: _ => stops.contains b

namespace Shape

def integerLength? (stops : StopSet) (bs : List UInt8) : Option Nat :=
  let sign := signLength bs
  let digits := digitCount (bs.drop sign)
  let length := sign + digits
  if digits ≠ 0 ∧ terminated stops (bs.drop length) then some length else none

def decimalLength? (stops : StopSet) (bs : List UInt8) : Option Nat :=
  let sign := signLength bs
  let digits := digitCount (bs.drop sign)
  let whole := sign + digits
  if (bs.drop whole).head? = some decimalPoint then
    let places := digitCount (bs.drop (whole + 1))
    let length := whole + 1 + places
    if places ≠ 0 ∧ terminated stops (bs.drop length) then some length else none
  else if digits ≠ 0 ∧ terminated stops (bs.drop whole) then some whole
  else none

def wordLength? (stops : StopSet) (bs : List UInt8) : Option Nat :=
  let length := (bs.takeWhile fun b => !stops.contains b).length
  if length ≠ 0 then some length else none

def length? : Shape → StopSet → List UInt8 → Option Nat
  | .integer => integerLength?
  | .decimal => decimalLength?
  | .word => wordLength?

/-- The length of a quoted lexeme, both quotes included. It ends at the first
quote behind the opening one. -/
def quotedLength? (quote : UInt8) : List UInt8 → Option Nat
  | [] => none
  | b :: body =>
      let inner := (body.takeWhile (· ≠ quote)).length
      if b = quote ∧ inner < body.length then some (inner + 2) else none

end Shape

end Lexing
