/-! Maximal runs. Whatever is skipped or read up to a stop is the longest head of
a list whose elements all have some property. -/

namespace Lexing

/-- All of `run` has the property, and `tail` is empty or starts without it. -/
structure Stretch {α : Type} (p : α → Bool) (run tail : List α) : Prop where
  all : ∀ a ∈ run, p a = true
  stop : ∀ a ∈ tail.head?, p a = false

namespace Stretch

variable {α : Type} {p : α → Bool} {run tail run' tail' : List α}

theorem takeWhile_eq (h : Stretch p run tail) : (run ++ tail).takeWhile p = run := by
  rw [List.takeWhile_append_of_pos h.all]
  cases tail with
  | nil => simp
  | cons a tail => simp [h.stop a rfl]

theorem exists_eq_append (p : α → Bool) (as : List α) :
    ∃ run tail, as = run ++ tail ∧ Stretch p run tail := by
  refine ⟨as.takeWhile p, as.dropWhile p, List.takeWhile_append_dropWhile.symm, ?_, ?_⟩
  · intro a ha
    exact List.all_eq_true.mp List.all_takeWhile a ha
  · intro a ha
    have hnot := List.head?_dropWhile_not p as
    rw [Option.mem_def.mp ha] at hnot
    simpa using hnot

theorem of_not_mem [DecidableEq α] {a : α} (hrun : a ∉ run) (htail : ∀ b ∈ tail.head?, b = a) :
    Stretch (fun b => decide (b ≠ a)) run tail := by
  constructor
  · intro b hb
    rw [decide_eq_true_eq]
    rintro rfl
    exact hrun hb
  · intro b hb
    rw [decide_eq_false_iff_not, Decidable.not_not]
    exact htail b hb

theorem unique (h : Stretch p run tail) (h' : Stretch p run' tail')
    (heq : run ++ tail = run' ++ tail') : run = run' ∧ tail = tail' := by
  have hrun : run = run' := by
    rw [← h.takeWhile_eq, heq, h'.takeWhile_eq]
  subst hrun
  exact ⟨rfl, List.append_cancel_left heq⟩

end Stretch

theorem getElem?_behind {α : Type} {as run tail : List α} {start : Nat}
    (h : as.drop start = run ++ tail) : as[start + run.length]? = tail.head? := by
  rw [← List.head?_drop, ← List.drop_drop, h, List.drop_left]

theorem idxOf?_append_cons {α : Type} [BEq α] [LawfulBEq α] {a : α} {run tail : List α}
    (h : a ∉ run) : (run ++ a :: tail).idxOf? a = some run.length := by
  have hnone : run.findIdx? (· == a) = none := List.idxOf?_eq_none_iff.mpr h
  rw [List.idxOf?, List.findIdx?_append, hnone]
  simp [List.findIdx?_cons]

end Lexing
