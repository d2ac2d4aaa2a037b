import Lexing.Text.Visible

/-! Text as messages and listings show it: whole strings in double quotes, and
single bytes as the characters of the same code. -/

namespace Lexing.Text

/-- The code of a character in lower-case hexadecimal, as `u` with braces. -/
def codeEscape (c : Char) : List Char :=
  '\\' :: 'u' :: '{' :: Nat.toDigits 16 c.toNat ++ ['}']

/-- A quote, a backslash and the usual controls are named after a backslash;
of the rest, what is not visible is written by its code. -/
def escape (c : Char) : List Char :=
  match c with
  | '\x00' => ['\\', '0']
  | '\t' => ['\\', 't']
  | '\r' => ['\\', 'r']
  | '\n' => ['\\', 'n']
  | '"' => ['\\', '"']
  | '\\' => ['\\', '\\']
  | c => if isVisible c then [c] else codeEscape c

def quoted (s : String) : String :=
  String.ofList ('"' :: s.toList.flatMap escape ++ ['"'])

/-- A byte as the character of its code; whatever is not printable ASCII is
escaped, and so are both kinds of quotes. -/
def byteName (b : UInt8) : String :=
  let c := Char.ofNat b.toNat
  String.ofList <| match c with
    | '\t' => ['\\', 't']
    | '\r' => ['\\', 'r']
    | '\n' => ['\\', 'n']
    | '\'' => ['\\', '\'']
    | '"' => ['\\', '"']
    | '\\' => ['\\', '\\']
    | c => if 0x20 ≤ c.toNat ∧ c.toNat ≤ 0x7e then [c] else codeEscape c

def byteHex (b : UInt8) : String :=
  let digit (n : Nat) : Char := (Nat.digitChar n).toUpper
  String.ofList [digit (b.toNat / 16), digit (b.toNat % 16)]

end Lexing.Text
