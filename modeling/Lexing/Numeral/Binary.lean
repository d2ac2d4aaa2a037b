import Lexing.Numeral.Integer

/-! Decimal numerals as binary floating-point numbers. A numeral is a fraction;
it is rounded once, to the nearest number of the format. -/

namespace Lexing

/-- The nearest natural number to `num / den`; a half goes to the even neighbour. -/
def roundHalfEven (num den : Nat) : Nat :=
  let whole := num / den
  let twice := 2 * (num % den)
  if den < twice ∨ (twice = den ∧ whole % 2 = 1) then whole + 1 else whole

/-- A binary interchange format. Its smallest positive number is the negative
power `leastPower` of two, and its numbers have `precision` significant bits. -/
structure BinaryFormat where
  precision : Nat
  exponentWidth : Nat
  leastPower : Nat
  deriving DecidableEq, Repr

namespace BinaryFormat

def single : BinaryFormat := ⟨24, 8, 149⟩
def double : BinaryFormat := ⟨53, 11, 1074⟩

def signBit (f : BinaryFormat) : Nat := Nat.pow 2 (f.exponentWidth + f.precision - 1)

def infinity (f : BinaryFormat) : Nat := (Nat.pow 2 f.exponentWidth - 1) * Nat.pow 2 (f.precision - 1)

/-- The bits of the number nearest to `num / den`. In units of the smallest
positive number the fraction has some number of bits, and as many of them are
dropped as exceed the precision. Each dropped bit adds one to the exponent, and
a carry out of the significand does that by itself. -/
def round (f : BinaryFormat) (num den : Nat) : Nat :=
  let units := num * Nat.pow 2 f.leastPower
  let bitLength := if units < den then 0 else Nat.log2 (units / den) + 1
  let dropped := bitLength - f.precision
  min f.infinity
    (dropped * Nat.pow 2 (f.precision - 1) + roundHalfEven units (den * Nat.pow 2 dropped))

/-- The bits of a decimal numeral: an optional minus, digits, and perhaps a
point with digits behind it. -/
def ofNumeral (f : BinaryFormat) (bs : List UInt8) : Nat :=
  let unsigned := bs.drop (signLength bs)
  let whole := unsigned.takeWhile isDigit
  let places := (unsigned.drop whole.length).drop 1
  let magnitude := f.round (digitsValue (whole ++ places)) (Nat.pow 10 places.length)
  if isNegative bs then f.signBit + magnitude else magnitude

end BinaryFormat

end Lexing
