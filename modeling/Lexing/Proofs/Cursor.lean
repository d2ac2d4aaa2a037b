import Lexing.Proofs.Boundary
import Lexing.Proofs.Position

/-! How a cursor moves. Every move passes over bytes at the head of what is
left, so a cursor is described by the bytes that it passes and those behind
them. -/

namespace Lexing.Cursor

def pass (c : Cursor) (bs : List UInt8) : Cursor := { c with position := c.position.pass bs }

def OnBoundary (c : Cursor) : Prop := c.source.Boundary c.offset

instance (c : Cursor) : Decidable c.OnBoundary :=
  inferInstanceAs (Decidable (c.source.Boundary c.offset))

@[simp] theorem pass_source (c : Cursor) (bs : List UInt8) : (c.pass bs).source = c.source := rfl

@[simp] theorem pass_position (c : Cursor) (bs : List UInt8) :
    (c.pass bs).position = c.position.pass bs := rfl

@[simp] theorem pass_offset (c : Cursor) (bs : List UInt8) :
    (c.pass bs).offset = c.offset + bs.length := c.position.pass_offset bs

@[simp] theorem pass_nil (c : Cursor) : c.pass [] = c := rfl

theorem pass_append (c : Cursor) (as bs : List UInt8) :
    c.pass (as ++ bs) = (c.pass as).pass bs := by
  simp only [pass, Position.pass_append]

theorem length_rest (c : Cursor) : c.rest.length = c.source.length - c.offset :=
  List.length_drop

theorem rest_pass {c : Cursor} {bs tail : List UInt8} (h : c.rest = bs ++ tail) :
    (c.pass bs).rest = tail := by
  have hdrop : c.source.bytes.drop c.offset = bs ++ tail := h
  rw [rest, pass_offset, pass_source, ← List.drop_drop, hdrop, List.drop_left]

theorem advanceTo_eq (c : Cursor) (target : Nat) :
    c.advanceTo target = c.pass (c.rest.take (target - c.offset)) := by
  rw [advanceTo, Position.advance_eq_pass]
  rfl

theorem discardWhile_eq (c : Cursor) (p : UInt8 → Bool) :
    c.discardWhile p = c.pass (c.rest.takeWhile p) := by
  have htake : c.rest.take (c.rest.takeWhile p).length = c.rest.takeWhile p :=
    List.prefix_iff_eq_take.mp (List.takeWhile_prefix p) |>.symm
  rw [discardWhile, advanceTo_eq, Nat.add_sub_cancel_left, htake]

theorem pass_le {c : Cursor} (hc : c.offset ≤ c.source.length) {bs tail : List UInt8}
    (hrest : c.rest = bs ++ tail) : (c.pass bs).offset ≤ c.source.length := by
  have hlen := c.length_rest
  rw [hrest, List.length_append] at hlen
  rw [pass_offset]
  omega

theorem discardWhile_le {c : Cursor} (hc : c.offset ≤ c.source.length) (p : UInt8 → Bool) :
    (c.discardWhile p).offset ≤ c.source.length := by
  rw [discardWhile_eq]
  exact pass_le hc List.takeWhile_append_dropWhile.symm

theorem next_eq {c : Cursor} {b : UInt8} {tail : List UInt8} (h : c.rest = b :: tail) :
    c.next = .ok (b, c.pass [b]) := by
  rw [next, h]
  rfl

theorem atEnd_iff {c : Cursor} : c.atEnd = true ↔ c.rest = [] := List.isEmpty_iff

theorem advanceTo_of_rest {c : Cursor} {b : UInt8} {bs tail : List UInt8}
    (h : c.rest = b :: bs ++ tail) :
    (c.pass [b]).advanceTo (c.position.offset + (b :: bs).length) = c.pass (b :: bs) := by
  have hrest : (c.pass [b]).rest = bs ++ tail := rest_pass (by simpa using h)
  have hlen : c.position.offset + (b :: bs).length - (c.pass [b]).offset = bs.length := by
    rw [pass_offset, offset, List.length_cons, List.length_singleton]
    omega
  rw [advanceTo_eq, hrest, hlen, List.take_left, ← pass_append, List.singleton_append]

section Readers

variable {c : Cursor} {start : Nat} {left : Nat × Cursor}

theorem readQuoted_eq_some {quote : UInt8} : c.readQuoted start quote = .ok (some left) ↔
    isAscii quote = true ∧ ∃ n, Shape.quotedLength? quote (c.source.bytes.drop start) = some n ∧
      (start + n, c.advanceTo (start + n)) = left := by
  rw [readQuoted]
  split
  · next hquote => rw [Except.ok.injEq, Option.map_eq_some_iff, and_iff_right hquote]
  · next hquote => exact iff_of_false nofun fun h => hquote h.1

theorem exists_of_classify {τ : Type} {stops : StopSet} {chain : List (τ × Shape)} {tag : τ}
    (h : c.classify start stops chain = some (tag, left)) :
    ∃ shape, (tag, shape) ∈ chain ∧ c.read shape start stops = some left := by
  obtain ⟨⟨tag', shape⟩, hmem, hfound⟩ := List.exists_of_findSome?_eq_some h
  obtain ⟨left', hread, heq⟩ := Option.map_eq_some_iff.mp hfound
  obtain ⟨rfl, rfl⟩ := Prod.mk.inj heq
  exact ⟨shape, hmem, hread⟩

end Readers

section Cut

variable {c : Cursor} {start stop : Nat} {text : String}

theorem slice_of_cut (hle : start ≤ stop) (h : c.source.cut? start stop = some text) :
    c.slice start stop = .ok text := by
  rw [slice, if_neg (Nat.not_lt.mpr hle), h]

/-- A token can be made of every text but the empty one. -/
theorem token_of_cut {τ : Type} (tag : τ) {place : Position} (hle : place.offset ≤ stop)
    (h : c.source.cut? place.offset stop = some text) (hne : text ≠ "") :
    c.token tag place stop = .ok ⟨tag, some text, place⟩ := by
  rw [token, slice_of_cut hle h]
  exact if_neg hne

end Cut

section Boundary

variable {c : Cursor}

theorem OnBoundary.le (h : c.OnBoundary) : c.offset ≤ c.source.length := Source.Boundary.le h

theorem ofSource_onBoundary (source : Source) : (ofSource source).OnBoundary :=
  source.boundary_zero

theorem OnBoundary.offset_add_length (h : c.OnBoundary) :
    c.offset + c.rest.length = c.source.length := by
  have hle := h.le
  rw [length_rest]
  omega

theorem onBoundary_of_rest_cons {b : UInt8} {tail : List UInt8} (hb : isAscii b = true)
    (hrest : c.rest = b :: tail) : c.OnBoundary ∧ (c.pass [b]).OnBoundary := by
  have hboth := Source.boundary_of_drop_eq_cons hb hrest
  refine ⟨hboth.1, ?_⟩
  rw [OnBoundary, pass_offset, pass_source]
  exact hboth.2

theorem onBoundary_of_rest_nil (hle : c.offset ≤ c.source.length) (hrest : c.rest = []) :
    c.OnBoundary := by
  have hlen : c.source.length ≤ c.offset := List.drop_eq_nil_iff.mp hrest
  have heq : c.offset = c.source.length := Nat.le_antisymm hle hlen
  rw [OnBoundary, heq]
  exact c.source.boundary_length

/-- Passing whole characters of one byte each. -/
theorem OnBoundary.pass_ascii (h : c.OnBoundary) {bs tail : List UInt8}
    (hbs : ∀ b ∈ bs, isAscii b = true) (hrest : c.rest = bs ++ tail) :
    (c.pass bs).OnBoundary := by
  induction bs generalizing c with
  | nil => exact h
  | cons b bs ih =>
    have hone := (onBoundary_of_rest_cons (hbs b (by simp)) hrest).2
    have htail : (c.pass [b]).rest = bs ++ tail := rest_pass (by simpa using hrest)
    rw [← List.singleton_append, pass_append]
    exact ih hone (fun a ha => hbs a (by simp [ha])) htail

/-- Passing up to a byte below 128, or to the end. -/
theorem OnBoundary.pass_stop (h : c.OnBoundary) {bs tail : List UInt8}
    (hstop : ∀ b ∈ tail.head?, isAscii b = true) (hrest : c.rest = bs ++ tail) :
    (c.pass bs).OnBoundary := by
  have htail := rest_pass hrest
  cases tail with
  | nil => exact onBoundary_of_rest_nil (pass_le h.le hrest) htail
  | cons b tail => exact (onBoundary_of_rest_cons (hstop b rfl) htail).1

theorem OnBoundary.slice (h : c.OnBoundary) {bs tail : List UInt8}
    (hpass : (c.pass bs).OnBoundary) (hrest : c.rest = bs ++ tail) :
    ∃ text, c.source.cut? c.offset (c.offset + bs.length) = some text ∧
      encode text.toList = bs := by
  have hstop : c.source.Boundary (c.offset + bs.length) := by
    rw [← pass_offset]
    exact hpass
  obtain ⟨text, hcut, hbytes⟩ := Source.Boundary.cut h hstop (Nat.le_add_right _ _)
  refine ⟨text, hcut, ?_⟩
  have hdrop : c.source.bytes.drop c.offset = bs ++ tail := hrest
  rw [hbytes, hdrop, Nat.add_sub_cancel_left, List.take_left]

end Boundary

end Lexing.Cursor
