import Lexing.Shape

/-! Integer numerals and the ranges of fixed-width integers. -/

namespace Lexing

/-- The value of a run of decimal digits, the highest first. -/
def digitsValue (bs : List UInt8) : Nat := bs.foldl (fun n b => 10 * n + (b.toNat - 48)) 0

def isNegative (bs : List UInt8) : Bool := bs.head? == some minusSign

/-- The value of digits behind an optional minus. -/
def integerValue (bs : List UInt8) : Int :=
  let magnitude := digitsValue (bs.drop (signLength bs))
  if isNegative bs then -(magnitude : Int) else magnitude

/-- The integers of a number of bits, in two's complement if they are signed. -/
structure IntegerType where
  signed : Bool
  width : Nat
  deriving DecidableEq, Repr

namespace IntegerType

def least (type : IntegerType) : Int :=
  if type.signed then -(Nat.pow 2 (type.width - 1) : Int) else 0

def greatest (type : IntegerType) : Int :=
  if type.signed then (Nat.pow 2 (type.width - 1) : Int) - 1 else (Nat.pow 2 type.width : Int) - 1

/-- The value of an integer numeral; an unsigned type admits no minus, not even
before zero. -/
def ofNumeral? (type : IntegerType) (bs : List UInt8) : Option Int :=
  let value := integerValue bs
  if (isNegative bs ∧ ¬ type.signed) ∨ value < type.least ∨ type.greatest < value then none
  else some value

end IntegerType

end Lexing
