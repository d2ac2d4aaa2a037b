/-! Requests that no correct caller makes. They are kept apart from errors in
the input: an operation that is misused changes nothing. -/

namespace Lexing

inductive Misuse
  /-- A byte was asked for at the end of the input. -/
  | readAtEnd (offset : Nat)
  | nonAsciiStop
  | nonAsciiQuote
  | reversedRange (start stop : Nat)
  /-- A range that leaves the source, or starts or ends inside a character. -/
  | brokenRange
  /-- A token other than the end of the input was to be made of no text. -/
  | emptyLexeme
  /-- A sum or a difference of offsets is no offset. -/
  | overflow
  /-- A cursor was to be moved behind the end of its source. -/
  | pastEnd
  /-- A grammar answered with a token and left its cursor behind the end. -/
  | strayCursor
  deriving DecidableEq, Repr

/-- The wording of a misuse; a broken range and an overflow have none of their own. -/
def Misuse.message? : Misuse → Option String
  | .readAtEnd offset => some ("next_char called at end of input (offset " ++ toString offset ++ ")")
  | .nonAsciiStop => some "stop characters must be ASCII"
  | .nonAsciiQuote => some "quote character must be ASCII"
  | .reversedRange start stop =>
      some ("slice start " ++ toString start ++ " exceeds end " ++ toString stop)
  | .brokenRange => none
  | .emptyLexeme => some "only the end-of-input sentinel is empty"
  | .overflow => none
  | .pastEnd => some "advance past end of source"
  | .strayCursor => some "grammar moved the cursor past the end of the source"

end Lexing
