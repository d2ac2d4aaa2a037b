import Lexing.Numeral.Binary
import Lexing.Token

/-! The numbers that tokens denote. A token is converted by its text alone,
whatever its tag. -/

namespace Lexing.Token

variable {τ : Type}

def isNumeral (t : Token τ) : NumberKind → Bool
  | .integer => Shape.length? .integer .empty t.bytes == some t.bytes.length
  | .decimal => Shape.length? .decimal .empty t.bytes == some t.bytes.length

def toInteger (t : Token τ) (type : IntegerType) : Except ConversionError Int :=
  if t.isNumeral .integer then
    match type.ofNumeral? t.bytes with
    | some value => .ok value
    | none => .error (.outOfRange t.data t.position)
  else .error (.malformed t.data .integer t.position)

/-- The bits of the nearest number of a binary format. -/
def toFloat (t : Token τ) (format : BinaryFormat) : Except ConversionError Nat :=
  if t.isNumeral .decimal then .ok (format.ofNumeral t.bytes)
  else .error (.malformed t.data .decimal t.position)

end Lexing.Token
