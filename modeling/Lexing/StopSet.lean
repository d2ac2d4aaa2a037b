import Lexing.Misuse
import Lexing.Text.Quoted

/-! Sets of the bytes at which a lexeme ends. Only ASCII codes can be members, so
no stop is ever a part of a longer character. -/

namespace Lexing

/-- One bit for each ASCII code. -/
structure StopSet where
  bits : BitVec 128
  deriving DecidableEq

def isAscii (b : UInt8) : Bool := b < 128

namespace StopSet

def empty : StopSet := ⟨0⟩

/-- Adds one byte. There is no bit for a byte that is not ASCII. -/
def insert (s : StopSet) (b : UInt8) : StopSet := ⟨s.bits ||| (1#128 <<< b.toNat)⟩

def ofList (bs : List UInt8) : StopSet := bs.foldl insert empty

def union (s t : StopSet) : StopSet := ⟨s.bits ||| t.bits⟩

def contains (s : StopSet) (b : UInt8) : Bool := s.bits.getLsbD b.toNat

def isEmpty (s : StopSet) : Bool := s.bits == 0

def toList (s : StopSet) : List UInt8 :=
  ((List.range 128).map UInt8.ofNat).filter s.contains

/-- The members in braces, each as a quoted text. -/
def render (s : StopSet) : String :=
  "\x7b" ++ ", ".intercalate (s.toList.map fun b => Text.quoted (Text.byteName b)) ++ "\x7d"

def insertAscii (s : StopSet) (b : UInt8) : Except Misuse StopSet :=
  if isAscii b then .ok (s.insert b) else .error .nonAsciiStop

/-- The set of the given bytes, all of which have to be ASCII. -/
def ofAscii (bs : List UInt8) : Except Misuse StopSet := bs.foldlM insertAscii empty

def whitespace : StopSet := ofList [32, 9, 10, 13]

instance : Membership UInt8 StopSet := ⟨fun s b => s.contains b = true⟩

instance (b : UInt8) (s : StopSet) : Decidable (b ∈ s) :=
  inferInstanceAs (Decidable (s.contains b = true))

theorem mem_iff {b : UInt8} {s : StopSet} : b ∈ s ↔ s.contains b = true := Iff.rfl

theorem not_mem_empty (b : UInt8) : b ∉ empty := by
  simp [mem_iff, contains, empty]

theorem mem_union {b : UInt8} {s t : StopSet} : b ∈ s.union t ↔ b ∈ s ∨ b ∈ t := by
  simp [mem_iff, contains, union, BitVec.getLsbD_or]

theorem mem_insert {a b : UInt8} {s : StopSet} (hb : isAscii b = true) :
    a ∈ s.insert b ↔ a = b ∨ a ∈ s := by
  have hlt : b.toNat < 128 := by simpa [isAscii, UInt8.lt_iff_toNat_lt] using hb
  simp only [mem_iff, contains, insert, BitVec.getLsbD_or, BitVec.getLsbD_shiftLeft,
    BitVec.getLsbD_one, Bool.or_eq_true, Bool.and_eq_true, decide_eq_true_eq,
    Bool.not_eq_true', decide_eq_false_iff_not, ← UInt8.toNat_inj]
  constructor
  · rintro (h | h)
    · exact .inr h
    · left; omega
  · rintro (h | h)
    · right; omega
    · exact .inl h

theorem mem_foldl_insert {a : UInt8} {bs : List UInt8} {s : StopSet}
    (h : ∀ b ∈ bs, isAscii b = true) : a ∈ bs.foldl insert s ↔ a ∈ bs ∨ a ∈ s := by
  induction bs generalizing s with
  | nil => simp
  | cons b bs ih =>
    rw [List.foldl_cons, ih fun b hb => h b (List.mem_cons_of_mem _ hb),
      mem_insert (h b List.mem_cons_self), List.mem_cons]
    constructor
    · rintro (hbs | rfl | hs)
      · exact .inl (.inr hbs)
      · exact .inl (.inl rfl)
      · exact .inr hs
    · rintro ((rfl | hbs) | hs)
      · exact .inr (.inl rfl)
      · exact .inl hbs
      · exact .inr (.inr hs)

theorem mem_ofList {a : UInt8} {bs : List UInt8} (h : ∀ b ∈ bs, isAscii b = true) :
    a ∈ ofList bs ↔ a ∈ bs := by
  rw [ofList, mem_foldl_insert h]
  simp [not_mem_empty]

theorem lt_of_mem {b : UInt8} {s : StopSet} (h : b ∈ s) : b.toNat < 128 := by
  by_cases hb : b.toNat < 128
  · exact hb
  · simp [mem_iff, contains, BitVec.getLsbD_of_ge _ _ (by omega : 128 ≤ b.toNat)] at h

theorem isAscii_of_mem {b : UInt8} {s : StopSet} (h : b ∈ s) : isAscii b = true := by
  have hlt := lt_of_mem h
  simpa [isAscii, UInt8.lt_iff_toNat_lt] using hlt

end StopSet

end Lexing
