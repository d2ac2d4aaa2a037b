import Lexing.Position
import Lexing.Text.Quoted

/-! What can be wrong with an input: bytes that no token accounts for, and
numerals that denote no value of the type asked for. -/

namespace Lexing

inductive LexErrorKind
  | unrecognized (byte : UInt8)
  | unterminated (quote : UInt8)
  deriving DecidableEq, Repr

structure LexError where
  kind : LexErrorKind
  position : Position
  deriving DecidableEq, Repr

inductive NumberKind
  | integer
  | decimal
  deriving DecidableEq, Repr

/-- Why a token's text is no value of a number type. -/
inductive ConversionError
  | malformed (text : String) (expected : NumberKind) (position : Position)
  | outOfRange (text : String) (position : Position)
  deriving DecidableEq, Repr

def LexErrorKind.message : LexErrorKind → String
  | .unrecognized byte =>
      "unrecognized character '" ++ Text.byteName byte ++ "' (0x" ++ Text.byteHex byte ++ ")"
  | .unterminated quote =>
      "unterminated string: missing closing " ++ String.singleton (Char.ofNat quote.toNat)

def LexError.message (e : LexError) : String := e.position.render ++ ": " ++ e.kind.message

def NumberKind.phrase : NumberKind → String
  | .integer => "an integer"
  | .decimal => "a decimal"

def ConversionError.message : ConversionError → String
  | .malformed text expected position =>
      position.render ++ ": `" ++ text ++ "` is not " ++ expected.phrase ++ " literal"
  | .outOfRange text position =>
      position.render ++ ": integer literal `" ++ text ++
        "` is out of range for the requested type"

end Lexing
