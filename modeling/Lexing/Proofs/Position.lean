import Lexing.Position
import Lexing.Proofs.Stretch

/-! Lines and columns by what stands before them: the line is told by the line
feeds, the column by the bytes behind the last of these. Counting byte by byte
and counting a whole run at once come to the same. -/

namespace Lexing

def lastLine (bs : List UInt8) : List UInt8 := (bs.reverse.takeWhile (· ≠ lineFeed)).reverse

/-- Bytes without a line feed, or a last line feed with a line behind it. -/
theorem line_cases (bs : List UInt8) :
    lineFeed ∉ bs ∨ ∃ front line, bs = front ++ lineFeed :: line ∧ lineFeed ∉ line := by
  induction bs with
  | nil => simp
  | cons b bs ih =>
    rcases ih with hnone | ⟨front, line, rfl, hline⟩
    · by_cases hb : lineFeed = b
      · exact .inr ⟨[], bs, by simp [hb], hnone⟩
      · exact .inl (by simp [hb, hnone])
    · exact .inr ⟨b :: front, line, rfl, hline⟩

@[simp] theorem lastLine_of_not_mem {bs : List UInt8} (h : lineFeed ∉ bs) : lastLine bs = bs := by
  have hrun : Stretch (fun b => decide (b ≠ lineFeed)) bs.reverse [] :=
    .of_not_mem (by simpa using h) (by simp)
  have htake := hrun.takeWhile_eq
  rw [List.append_nil] at htake
  rw [lastLine, htake, List.reverse_reverse]

@[simp] theorem lastLine_append_cons {front line : List UInt8} (h : lineFeed ∉ line) :
    lastLine (front ++ lineFeed :: line) = line := by
  have hrun : Stretch (fun b => decide (b ≠ lineFeed)) line.reverse (lineFeed :: front.reverse) :=
    .of_not_mem (by simpa using h) (by simp)
  rw [lastLine, List.reverse_append, List.reverse_cons, List.append_assoc, List.singleton_append,
    hrun.takeWhile_eq, List.reverse_reverse]

theorem lastLine_append_lineFeed (front bs : List UInt8) :
    lastLine (front ++ lineFeed :: bs) = lastLine bs := by
  rcases line_cases bs with hnone | ⟨front', line, rfl, hline⟩
  · rw [lastLine_append_cons hnone, lastLine_of_not_mem hnone]
  · rw [← List.cons_append, ← List.append_assoc, lastLine_append_cons hline,
      lastLine_append_cons hline]

theorem lastLine_length_le (bs : List UInt8) : (lastLine bs).length ≤ bs.length := by
  have hsub := (List.takeWhile_prefix (l := bs.reverse) (· ≠ lineFeed)).length_le
  simpa [lastLine] using hsub

namespace Position

theorem one_le_limit : 1 ≤ limit := by decide

theorem saturate_le (n : Nat) : saturate n ≤ limit := Nat.min_le_right _ _

theorem saturate_of_le {n : Nat} (h : n ≤ limit) : saturate n = n := Nat.min_eq_left h

@[simp] theorem saturate_add_saturate (m n : Nat) :
    saturate (m + saturate n) = saturate (m + n) := by
  unfold saturate
  omega

@[simp] theorem saturate_saturate_add (m n : Nat) :
    saturate (saturate m + n) = saturate (m + n) := by
  unfold saturate
  omega

theorem lastLineFeed?_of_not_mem {bs : List UInt8} (h : lineFeed ∉ bs) :
    lastLineFeed? bs = none := by
  have hrev : bs.reverse.idxOf? lineFeed = none := List.idxOf?_eq_none_iff.mpr (by simpa using h)
  rw [lastLineFeed?, hrev, Option.map_none]

theorem lastLineFeed?_append_cons {front line : List UInt8} (h : lineFeed ∉ line) :
    lastLineFeed? (front ++ lineFeed :: line) = some front.length := by
  have hrev : (front ++ lineFeed :: line).reverse.idxOf? lineFeed = some line.length := by
    rw [List.reverse_append, List.reverse_cons, List.append_assoc, List.singleton_append,
      idxOf?_append_cons (by simpa using h), List.length_reverse]
  rw [lastLineFeed?, hrev, Option.map_some]
  simp

theorem step_lineFeed (p : Position) :
    p.step lineFeed = ⟨p.offset + 1, saturate (p.line + 1), 1⟩ := if_pos rfl

theorem step_of_ne {b : UInt8} (hb : b ≠ lineFeed) (p : Position) :
    p.step b = ⟨p.offset + 1, p.line, saturate (p.column + 1)⟩ := if_neg hb

theorem saturate_pass_line (p : Position) (bs : List UInt8) (n : Nat) :
    saturate ((p.pass bs).line + n) = saturate (p.line + (bs.count lineFeed + n)) := by
  induction bs generalizing p with
  | nil => simp
  | cons b bs ih =>
    rw [pass_cons, ih]
    by_cases hb : b = lineFeed
    · subst hb
      rw [step_lineFeed, saturate_saturate_add, List.count_cons_self]
      congr 1
      omega
    · rw [step_of_ne hb, List.count_cons_of_ne hb]

theorem pass_of_not_mem {p : Position} {bs : List UInt8} (h : lineFeed ∉ bs)
    (hp : p.column ≤ limit) :
    p.pass bs = ⟨p.offset + bs.length, p.line, saturate (p.column + bs.length)⟩ := by
  induction bs generalizing p with
  | nil => simp [saturate_of_le hp]
  | cons b bs ih =>
    simp only [List.mem_cons, not_or] at h
    have hb : b ≠ lineFeed := fun heq => h.1 heq.symm
    rw [pass_cons, step_of_ne hb, ih h.2 (saturate_le _), List.length_cons, saturate_saturate_add,
      Nat.add_assoc, Nat.add_assoc, Nat.add_comm 1]

theorem pass_append_lineFeed {front line : List UInt8} (h : lineFeed ∉ line) (p : Position) :
    p.pass (front ++ lineFeed :: line) =
      ⟨p.offset + (front ++ lineFeed :: line).length,
        saturate (p.line + (front ++ lineFeed :: line).count lineFeed),
        saturate (line.length + 1)⟩ := by
  have hnone : line.count lineFeed = 0 := List.count_eq_zero_of_not_mem h
  rw [pass_append, pass_cons, step_lineFeed, pass_of_not_mem h one_le_limit, saturate_pass_line,
    pass_offset, List.count_append, List.count_cons_self, hnone, List.length_append,
    List.length_cons, Nat.add_comm 1 line.length]
  simp only [mk.injEq, and_true]
  omega

/-- Counting a run at once is counting it byte by byte. -/
theorem advance_eq_pass (p : Position) (bs : List UInt8) : p.advance bs = p.pass bs := by
  rcases line_cases bs with hnone | ⟨front, line, rfl, hline⟩
  · rw [advance, lastLineFeed?_of_not_mem hnone]
    cases bs with
    | nil => rfl
    | cons b bs =>
      simp only [List.mem_cons, not_or] at hnone
      have hb : b ≠ lineFeed := fun heq => hnone.1 heq.symm
      rw [pass_cons, step_of_ne hb, pass_of_not_mem hnone.2 (saturate_le _),
        saturate_saturate_add, Nat.add_assoc, Nat.add_assoc, Nat.add_comm 1]
      simp
  · have hlast : (front ++ lineFeed :: line).length - front.length = line.length + 1 := by simp
    rw [advance, lastLineFeed?_append_cons hline, pass_append_lineFeed hline]
    simp only [saturate_add_saturate, hlast]
    simp

/-- The position behind the first bytes of a text. -/
theorem start_pass (bs : List UInt8) : start.pass bs =
    ⟨bs.length, saturate (1 + bs.count lineFeed), saturate (1 + (lastLine bs).length)⟩ := by
  rcases line_cases bs with hnone | ⟨front, line, rfl, hline⟩
  · rw [pass_of_not_mem hnone one_le_limit, lastLine_of_not_mem hnone,
      List.count_eq_zero_of_not_mem hnone, saturate_of_le one_le_limit]
    simp [start]
  · rw [pass_append_lineFeed hline, lastLine_append_cons hline, Nat.add_comm line.length]
    simp [start]

end Position

end Lexing
