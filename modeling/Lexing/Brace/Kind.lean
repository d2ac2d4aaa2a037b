import Lexing.Token

/-! Kinds of tokens of the brace language, and sets of kinds. A token is tagged
with a set, usually of one kind, so that a reader can ask for any of several. -/

namespace Lexing.Brace

inductive Kind
  | integer
  | decimal
  | string
  | openBrace
  | closeBrace
  | equals
  | semicolon
  | endOfInput
  | quoted
  deriving DecidableEq, Repr

namespace Kind

/-- All kinds in the order of their bits. -/
def all : List Kind :=
  [integer, decimal, string, openBrace, closeBrace, equals, semicolon, endOfInput, quoted]

def bit : Kind → Nat
  | integer => 0
  | decimal => 1
  | string => 2
  | openBrace => 3
  | closeBrace => 4
  | equals => 5
  | semicolon => 6
  | endOfInput => 7
  | quoted => 8

def name : Kind → String
  | integer => "INTEGER"
  | decimal => "DECIMAL"
  | string => "STRING"
  | openBrace => "O_BRACE"
  | closeBrace => "C_BRACE"
  | equals => "EQUALS"
  | semicolon => "SEMICOLON"
  | endOfInput => "EOF"
  | quoted => "QUOTED"

/-- All kinds in the order in which messages list them: first those of values. -/
def listed : List Kind :=
  [integer, decimal, string, quoted, openBrace, closeBrace, equals, semicolon, endOfInput]

def phrase : Kind → String
  | integer => "integer"
  | decimal => "decimal"
  | string => "string"
  | quoted => "quoted string"
  | openBrace => "'\x7b'"
  | closeBrace => "'\x7d'"
  | equals => "'='"
  | semicolon => "';'"
  | endOfInput => "end of input"

end Kind

/-- A set of kinds. The bits that stand for no kind are kept, but have no name. -/
structure Kinds where
  bits : BitVec 32
  deriving DecidableEq, Repr

namespace Kinds

def ofKind (k : Kind) : Kinds := ⟨1#32 <<< k.bit⟩

def union (s t : Kinds) : Kinds := ⟨s.bits ||| t.bits⟩
def inter (s t : Kinds) : Kinds := ⟨s.bits &&& t.bits⟩
def difference (s t : Kinds) : Kinds := ⟨s.bits &&& ~~~t.bits⟩
def symmetricDifference (s t : Kinds) : Kinds := ⟨s.bits ^^^ t.bits⟩

def empty : Kinds := ⟨0⟩

def full : Kinds := Kind.all.foldl (fun s k => s.union (ofKind k)) empty

/-- What is left when the bits without a name are dropped. -/
def named (s : Kinds) : Kinds := s.inter full

def complement (s : Kinds) : Kinds := full.difference s

def isEmpty (s : Kinds) : Bool := s == empty
def contains (s t : Kinds) : Bool := s.inter t == t
def intersects (s t : Kinds) : Bool := s.inter t != empty

def toList (s : Kinds) : List Kind := Kind.all.filter fun k => s.contains (ofKind k)

def name (s : Kinds) : String := (s.toList.head?.map Kind.name).getD "EMPTY"

/-- Phrases with commas between them, and an "or" before the last. -/
def alternatives : List String → String
  | [] => "nothing"
  | [only] => only
  | phrases@(_ :: _ :: _) =>
      ", ".intercalate phrases.dropLast ++ " or " ++ phrases.getLastD ""

/-- The kinds as alternatives of a message. -/
def describe (s : Kinds) : String :=
  alternatives ((Kind.listed.filter fun k => s.contains (ofKind k)).map Kind.phrase)

/-- The names of the kinds, and what has no name as a hexadecimal number. -/
def inspect (s : Kinds) : String :=
  let names := s.toList.map Kind.name
  let rest := s.difference full
  let number := "0x" ++ String.ofList (Nat.toDigits 16 rest.bits.toNat)
  let parts := if rest.isEmpty ∧ names ≠ [] then names else names ++ [number]
  "BraceToken(" ++ " | ".intercalate parts ++ ")"

instance : TagName Kinds := ⟨inspect⟩

/-- Each kind has a bit of its own. -/
theorem ofKind_inj {k l : Kind} : ofKind k = ofKind l ↔ k = l := by
  cases k <;> cases l <;> decide

end Kinds

end Lexing.Brace
