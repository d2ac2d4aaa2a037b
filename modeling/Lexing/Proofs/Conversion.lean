import Lexing.Conversion
import Lexing.Proofs.Shape

/-! Conversion of tokens by how they are written. A text by itself has no stops, so
that its shape is the shape of all of it. -/

namespace Lexing

theorem StopSet.numberFree_empty : StopSet.empty.NumberFree :=
  fun b hb => absurd hb (not_mem_empty b)

/-- Where nothing stops it, a shape is read up to the end or not as a whole. -/
theorem Shape.length?_empty_iff (shape : Shape) (bs : List UInt8) :
    shape.length? .empty bs = some bs.length ↔ shape.Fits bs := by
  have hrun : Stretch (fun b => !StopSet.empty.contains b) bs [] :=
    stretch_of_terminated (fun b _ => StopSet.not_mem_empty b) rfl
  have hlength := Shape.length?_eq_some_iff StopSet.numberFree_empty hrun shape (n := bs.length)
  rw [List.append_nil] at hlength
  rw [hlength, and_iff_left rfl]

namespace Token

variable {τ : Type} {t : Token τ}

theorem isNumeral_integer : t.isNumeral .integer = true ↔ IsInteger t.bytes := by
  rw [isNumeral, beq_iff_eq]
  exact Shape.length?_empty_iff .integer t.bytes

theorem isNumeral_decimal :
    t.isNumeral .decimal = true ↔ IsInteger t.bytes ∨ IsDecimal t.bytes := by
  rw [isNumeral, beq_iff_eq]
  exact Shape.length?_empty_iff .decimal t.bytes

/-- Every integer and every decimal has a nearest number, and nothing else has one. -/
theorem toFloat_eq_ok_iff {format : BinaryFormat} :
    (∃ bits, t.toFloat format = .ok bits) ↔ IsInteger t.bytes ∨ IsDecimal t.bytes := by
  rw [← isNumeral_decimal, toFloat]
  split
  · next hshape => exact iff_of_true ⟨_, rfl⟩ hshape
  · next hshape =>
    refine iff_of_false ?_ hshape
    rintro ⟨bits, hbits⟩
    contradiction

theorem toFloat_eq_error {format : BinaryFormat} {e : ConversionError}
    (h : t.toFloat format = .error e) : e = .malformed t.data .decimal t.position := by
  rw [toFloat] at h
  split at h
  · contradiction
  · exact (Except.error.inj h).symm

/-- An integer can only be out of range, and what is none is malformed as it stands. -/
theorem toInteger_eq_malformed_iff {type : IntegerType} {text : String} {expected : NumberKind}
    {place : Position} : t.toInteger type = .error (.malformed text expected place) ↔
      ¬ IsInteger t.bytes ∧ text = t.data ∧ expected = .integer ∧ place = t.position := by
  rw [← isNumeral_integer, toInteger]
  split
  · next hshape =>
    refine iff_of_false ?_ fun h => h.1 hshape
    cases type.ofNumeral? t.bytes with
    | some value => exact fun h => by contradiction
    | none => exact fun h => by cases h
  · next hshape =>
    constructor
    · rintro ⟨⟩
      exact ⟨hshape, rfl, rfl, rfl⟩
    · rintro ⟨-, rfl, rfl, rfl⟩
      rfl

end Token

end Lexing
