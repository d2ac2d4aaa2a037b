import Lexing.StopSet

/-! Stops in four words of 64 bits. There is a bit for every byte, but only ASCII codes are let
in, so the two upper words stay empty. A recipe is a way to put a set together, in either form. -/

namespace Lexing

/-- Four words of 64 bits, with one bit for each byte. -/
structure ByteTable where
  words : Vector (BitVec 64) 4
  deriving DecidableEq

namespace ByteTable

theorem shiftRight_lt (b : UInt8) : (b >>> 6).toNat < 4 := by
  have hlt := b.toNat_lt
  rw [UInt8.toNat_shiftRight, Nat.shiftRight_eq_div_pow]
  show b.toNat / 2 ^ 6 < 4
  omega

/-- The word of a byte, by its two upper bits. -/
def wordOf (b : UInt8) : Fin 4 := ⟨(b >>> 6).toNat, shiftRight_lt b⟩

/-- The bit of a byte in its word, by its six lower bits. -/
def mask (b : UInt8) : BitVec 64 := 1#64 <<< (b &&& 63).toNat

def word (t : ByteTable) (i : Fin 4) : BitVec 64 := t.words[i]

def empty : ByteTable := ⟨.replicate 4 0⟩

def insert (t : ByteTable) (b : UInt8) : ByteTable :=
  ⟨t.words.set (wordOf b) (t.word (wordOf b) ||| mask b)⟩

/-- Adds one byte, which has to be ASCII. -/
def insertAscii (t : ByteTable) (b : UInt8) : Except Misuse ByteTable :=
  if isAscii b then .ok (t.insert b) else .error .nonAsciiStop

def ofAscii (bs : List UInt8) : Except Misuse ByteTable := bs.foldlM insertAscii empty

def union (t u : ByteTable) : ByteTable := ⟨t.words.zipWith (· ||| ·) u.words⟩

def contains (t : ByteTable) (b : UInt8) : Bool := t.word (wordOf b) &&& mask b != 0

def isEmpty (t : ByteTable) : Bool := t.words.all (· == 0)

def toList (t : ByteTable) : List UInt8 := ((List.range 256).map UInt8.ofNat).filter t.contains

end ByteTable

/-- A way to put a set together. -/
inductive Recipe
  | empty
  | whitespace
  | ofAscii (bs : List UInt8)
  | insert (recipe : Recipe) (b : UInt8)
  | union (left right : Recipe)

namespace Recipe

/-- The bytes that are named, one after the other. -/
def named : Recipe → List UInt8
  | .empty => []
  | .whitespace => [32, 9, 10, 13]
  | .ofAscii bs => bs
  | .insert recipe b => recipe.named ++ [b]
  | .union left right => left.named ++ right.named

def set : Recipe → Except Misuse StopSet
  | .empty => return .empty
  | .whitespace => return .whitespace
  | .ofAscii bs => StopSet.ofAscii bs
  | .insert recipe b => do
      let s ← recipe.set
      s.insertAscii b
  | .union left right => do
      let s ← left.set
      let t ← right.set
      return s.union t

def table : Recipe → Except Misuse ByteTable
  | .empty => return .empty
  | .whitespace => ByteTable.ofAscii [32, 9, 10, 13]
  | .ofAscii bs => ByteTable.ofAscii bs
  | .insert recipe b => do
      let t ← recipe.table
      t.insertAscii b
  | .union left right => do
      let t ← left.table
      let u ← right.table
      return t.union u

end Recipe

end Lexing
