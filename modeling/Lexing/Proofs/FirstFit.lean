import Lexing.Cursor
import Lexing.Proofs.Shape

/-! What a chain of shapes finds at one place. As long as no stop is a part of a numeral, every
shape is measured against the same bytes, those up to the next stop, and the first shape in
which these are written is the answer. -/

namespace Lexing

/-- No byte from `start` up to `stop` is a stop, and at `stop` there is one or the bytes end. -/
structure RunEnd (stops : StopSet) (bytes : List UInt8) (start stop : Nat) : Prop where
  le : start ≤ stop
  inside : ∀ i, start ≤ i → i < stop → ∃ b ∈ bytes[i]?, b ∉ stops
  ends : ∀ b ∈ bytes[stop]?, b ∈ stops

/-- The tag of the first entry in whose shape the bytes are written. -/
def FirstFit {τ : Type} (run : List UInt8) (chain : List (τ × Shape)) (tag : τ) : Prop :=
  ∃ front shape back, chain = front ++ (tag, shape) :: back ∧
    (∀ entry ∈ front, ¬ entry.2.Fits run) ∧ shape.Fits run

/-- What is found at `start`, by one shape or by a chain of them, where `run` are the bytes from
there up to `stop`. -/
structure FoundByShape (c : Cursor) (stops : StopSet) (start stop : Nat) (run : List UInt8) :
    Prop where
  read_iff : ∀ shape left, c.read shape start stops = some left ↔
    shape.Fits run ∧ left = (stop, c.advanceTo stop)
  classify_iff : ∀ (τ : Type) (chain : List (τ × Shape)) tag left,
    c.classify start stops chain = some (tag, left) ↔
      FirstFit run chain tag ∧ left = (stop, c.advanceTo stop)
  classify_eq_none_iff : ∀ (τ : Type) (chain : List (τ × Shape)),
    c.classify start stops chain = none ↔ run = [] ∨ ∀ entry ∈ chain, ¬ entry.2.Fits run

section Run

variable {stops : StopSet} {bytes run tail : List UInt8} {start : Nat}

theorem RunEnd.of_stretch (hdrop : bytes.drop start = run ++ tail)
    (hrun : Stretch (fun b => !stops.contains b) run tail) :
    RunEnd stops bytes start (start + run.length) := by
  have hget : ∀ i, bytes[start + i]? = (run ++ tail)[i]? := by
    intro i
    rw [← hdrop, List.getElem?_drop]
  refine ⟨Nat.le_add_right _ _, ?_, ?_⟩
  · intro i hstart hlt
    obtain ⟨k, rfl⟩ := Nat.exists_eq_add_of_le hstart
    have hk : k < run.length := by omega
    rw [hget, List.getElem?_append_left hk, List.getElem?_eq_getElem hk]
    exact ⟨run[k], rfl, hrun.not_mem_stops run[k] (List.getElem_mem hk)⟩
  · intro b hb
    rw [getElem?_behind hdrop] at hb
    exact terminated_iff.mp hrun.terminated b hb

end Run

section Found

variable {stops : StopSet} {c : Cursor} {start : Nat} {run tail : List UInt8}
  (hfree : stops.NumberFree) (hdrop : c.source.bytes.drop start = run ++ tail)
  (hrun : Stretch (fun b => !stops.contains b) run tail)

include hfree hdrop hrun

/-- A shape is read up to the next stop, or not at all. -/
theorem Cursor.read_eq_some_iff (shape : Shape) {left : Nat × Cursor} :
    c.read shape start stops = some left ↔
      shape.Fits run ∧ left = (start + run.length, c.advanceTo (start + run.length)) := by
  rw [Cursor.read, hdrop, Option.map_eq_some_iff]
  simp only [Shape.length?_eq_some_iff hfree hrun shape]
  constructor
  · rintro ⟨n, ⟨hfits, rfl⟩, rfl⟩
    exact ⟨hfits, rfl⟩
  · rintro ⟨hfits, rfl⟩
    exact ⟨run.length, ⟨hfits, rfl⟩, rfl⟩

theorem Cursor.read_eq_none_iff (shape : Shape) :
    c.read shape start stops = none ↔ ¬ shape.Fits run := by
  rw [Option.eq_none_iff_forall_ne_some]
  constructor
  · intro hnone hfits
    exact hnone _ ((Cursor.read_eq_some_iff hfree hdrop hrun shape).mpr ⟨hfits, rfl⟩)
  · intro hfits left hread
    exact hfits ((Cursor.read_eq_some_iff hfree hdrop hrun shape).mp hread).1

theorem Cursor.classify_eq_some_iff {τ : Type} {chain : List (τ × Shape)} {tag : τ}
    {left : Nat × Cursor} : c.classify start stops chain = some (tag, left) ↔
      FirstFit run chain tag ∧ left = (start + run.length, c.advanceTo (start + run.length)) := by
  rw [Cursor.classify, List.findSome?_eq_some_iff]
  simp only [Option.map_eq_some_iff, Option.map_eq_none_iff,
    Cursor.read_eq_some_iff hfree hdrop hrun, Cursor.read_eq_none_iff hfree hdrop hrun]
  constructor
  · rintro ⟨front, ⟨tag', shape⟩, back, rfl, ⟨left', ⟨hfits, rfl⟩, heq⟩, hfront⟩
    obtain ⟨rfl, rfl⟩ := Prod.mk.inj heq
    exact ⟨⟨front, shape, back, rfl, hfront, hfits⟩, rfl⟩
  · rintro ⟨⟨front, shape, back, rfl, hfront, hfits⟩, rfl⟩
    exact ⟨front, (tag, shape), back, rfl, ⟨_, ⟨hfits, rfl⟩, rfl⟩, hfront⟩

theorem Cursor.classify_eq_none_iff {τ : Type} {chain : List (τ × Shape)} :
    c.classify start stops chain = none ↔ ∀ entry ∈ chain, ¬ entry.2.Fits run := by
  rw [Cursor.classify, List.findSome?_eq_none_iff]
  simp only [Option.map_eq_none_iff, Cursor.read_eq_none_iff hfree hdrop hrun]

end Found

/-- Where no stop is a part of a numeral, there is one end for all shapes, and the way in which
the bytes up to it are written decides on the answer of every chain. -/
theorem exists_foundByShape {stops : StopSet} (hfree : stops.NumberFree) (c : Cursor)
    (start : Nat) : ∃ stop, RunEnd stops c.source.bytes start stop ∧
      FoundByShape c stops start stop ((c.source.bytes.drop start).take (stop - start)) := by
  obtain ⟨run, tail, hdrop, hrun⟩ :=
    Stretch.exists_eq_append (fun b => !stops.contains b) (c.source.bytes.drop start)
  refine ⟨start + run.length, .of_stretch hdrop hrun, ?_⟩
  rw [hdrop, Nat.add_sub_cancel_left, List.take_left]
  refine ⟨fun shape left => Cursor.read_eq_some_iff hfree hdrop hrun shape,
    fun τ chain tag left => Cursor.classify_eq_some_iff hfree hdrop hrun, fun τ chain => ?_⟩
  rw [Cursor.classify_eq_none_iff hfree hdrop hrun]
  constructor
  · exact .inr
  · rintro (rfl | hnone)
    · exact fun entry _ hfits => hfits.ne_nil rfl
    · exact hnone

/-- A decimal behind which a second point comes before the next stop. -/
def twoPoints : Cursor := .ofSource (.ofString "-1.2.3;4")

/-- Neither number is read, although both start there, and the word goes up to the stop. -/
theorem foundByShape_twoPoints : (StopSet.ofList [59]).NumberFree ∧ ∃ stop,
    RunEnd (.ofList [59]) twoPoints.source.bytes 0 stop ∧
      FoundByShape twoPoints (.ofList [59]) 0 stop
        ((twoPoints.source.bytes.drop 0).take (stop - 0)) ∧ stop = 6 := by
  have hfree : (StopSet.ofList [59]).NumberFree := by
    intro b hb
    have hascii : ∀ a ∈ [59], isAscii a = true := List.forall_mem_singleton.mpr rfl
    obtain rfl := List.mem_singleton.mp ((StopSet.mem_ofList hascii).mp hb)
    decide
  obtain ⟨stop, hend, hfound⟩ := exists_foundByShape hfree twoPoints 0
  refine ⟨hfree, stop, hend, hfound, ?_⟩
  have hclassify : twoPoints.classify 0 (.ofList [59])
      [(0, .decimal), (1, .integer), (2, .word)] = some (2, 6, ⟨twoPoints.source, ⟨6, 1, 7⟩⟩) := by
    decide
  obtain ⟨-, hleft⟩ := (hfound.classify_iff Nat _ _ _).mp hclassify
  exact (Prod.mk.inj hleft).1.symm

end Lexing
