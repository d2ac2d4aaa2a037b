import Mathlib.Algebra.Group.Nat.Defs
import Lexing.Proofs.Location
import Lexing.Proofs.Offsets
import Lexing.Proofs.Stops

/-! Readings that are done as a whole or not at all. Wherever a lexeme is looked for, no
check of an offset fails, and the cursor is either left alone or brought behind the lexeme;
so a chain of readers answers like the first of them that finds something. -/

namespace Lexing

open Cursor (Ahead)

/-- Nothing is read and the cursor is as it was, or a lexeme is read from `start` on and
the cursor is at its end, if it was not further ahead. -/
inductive Settled (c : Cursor) (start : Nat) : Option Nat × Cursor → Prop
  | unread : Settled c start (none, c)
  | read {stop c'} : start < stop → stop ≤ c.source.length → Ahead c c' →
      c'.offset = max c.offset stop → (c.offset ≤ start + 1 → c'.offset = stop) →
      Settled c start (some stop, c')

section Settled

variable {limit : Nat} {c : Cursor} {start : Nat}

/-- An end in the source, behind `start`, can be moved to. -/
theorem settled_of_advanceTo (hc : c.offset ≤ c.source.length) {stop : Nat} (hstart : start < stop)
    (hstop : stop ≤ c.source.length) : Settled c start (some stop, c.advanceTo stop) := by
  have hoffset : (c.advanceTo stop).offset = max c.offset stop := by
    rw [Cursor.advanceTo_eq, Cursor.pass_offset, List.length_take, Cursor.length_rest]
    omega
  refine .read hstart hstop (c.advanceTo_ahead stop) hoffset fun hle => ?_
  rw [hoffset]
  omega

theorem exists_settle (hc : c.offset ≤ c.source.length) {length : Option Nat}
    (h : ∀ n ∈ length, 0 < n ∧ n ≤ (c.source.bytes.drop start).length) : ∃ left,
      Offsets.settle c (length.map (start + ·)) = .ok left ∧ Settled c start left ∧
        length.map (fun n => (start + n, c.advanceTo (start + n))) = left.1.map (·, left.2) := by
  cases length with
  | none => exact ⟨(none, c), rfl, .unread, rfl⟩
  | some n =>
    obtain ⟨hpos, hle⟩ := h n rfl
    rw [List.length_drop] at hle
    have hstop : start + n ≤ c.source.length := by
      show start + n ≤ c.source.bytes.length
      omega
    refine ⟨(some (start + n), c.advanceTo (start + n)), ?_, ?_, rfl⟩
    · rw [Option.map_some, Offsets.settle, Offsets.advanceTo_eq hc hstop]
      rfl
    · exact settled_of_advanceTo hc (Nat.lt_add_of_pos_right hpos) hstop

/-- A lexeme is not empty, and it is a part of what it is looked for in. -/
theorem Shape.length?_bounds {shape : Shape} {stops : StopSet} {bs : List UInt8} {n : Nat}
    (h : shape.length? stops bs = some n) : 0 < n ∧ n ≤ bs.length := by
  obtain ⟨run, tail, rfl, hfits, -, rfl⟩ := Shape.fits_of_length? h
  refine ⟨List.length_pos_iff.mpr hfits.ne_nil, ?_⟩
  rw [List.length_append]
  omega

theorem Shape.quotedLength?_bounds {quote : UInt8} {bs : List UInt8} {n : Nat}
    (h : Shape.quotedLength? quote bs = some n) : 0 < n ∧ n ≤ bs.length := by
  obtain ⟨body, tail, rfl, -, rfl⟩ := exists_of_quotedLength? h
  simp only [List.length_append, List.length_cons]
  omega

variable (hc : c.offset ≤ c.source.length) (hlen : c.source.length ≤ limit) (hstart : start ≤ limit)

include hc hlen hstart

theorem read_settled (shape : Shape) (stops : StopSet) : ∃ left,
    Offsets.read limit c shape start stops = .ok left ∧ Settled c start left ∧
      c.read shape start stops = left.1.map (·, left.2) := by
  obtain ⟨left, hsettle, hsettled, hread⟩ :=
    exists_settle hc fun n (hn : shape.length? stops (c.source.bytes.drop start) = some n) =>
      Shape.length?_bounds hn
  refine ⟨left, ?_, hsettled, hread⟩
  rw [Offsets.read, Offsets.lexemeEnd?_eq hlen hstart]
  exact hsettle

omit hstart in
theorem readQuoted_settled {quote : UInt8} (hquote : isAscii quote = true) : ∃ left,
    Offsets.readQuoted limit c start quote = .ok left ∧ Settled c start left ∧
      c.readQuoted start quote = .ok (left.1.map (·, left.2)) := by
  obtain ⟨left, hsettle, hsettled, hread⟩ :=
    exists_settle hc fun n (hn : Shape.quotedLength? quote (c.source.bytes.drop start) = some n) =>
      Shape.quotedLength?_bounds hn
  refine ⟨left, ?_, hsettled, ?_⟩
  · rw [Offsets.readQuoted, if_pos hquote, Offsets.quotedEnd?_eq hlen]
    exact hsettle
  · rw [Cursor.readQuoted, if_pos hquote]
    exact congrArg Except.ok hread

end Settled

/-- What a chain of readers leaves: what the first of them leaves that finds something,
each of them started alone on the same cursor. -/
inductive FirstRead {τ : Type} (limit : Nat) (c : Cursor) (start : Nat) (stops : StopSet) :
    List (τ × Shape) → Option (τ × Nat) × Cursor → Prop
  | unread {chain} : (∀ entry ∈ chain, Offsets.read limit c entry.2 start stops = .ok (none, c)) →
      FirstRead limit c start stops chain (none, c)
  | found {front back tag shape stop c'} :
      (∀ entry ∈ front, Offsets.read limit c entry.2 start stops = .ok (none, c)) →
      Offsets.read limit c shape start stops = .ok (some stop, c') →
      FirstRead limit c start stops (front ++ (tag, shape) :: back) (some (tag, stop), c')

section Chain

variable {τ : Type} {limit : Nat} {c : Cursor} {start : Nat} {stops : StopSet}

/-- A reader that finds nothing can be put in front of a chain. -/
theorem FirstRead.cons {chain : List (τ × Shape)} {left : Option (τ × Nat) × Cursor}
    (h : FirstRead limit c start stops chain left) {entry : τ × Shape}
    (hentry : Offsets.read limit c entry.2 start stops = .ok (none, c)) :
    FirstRead limit c start stops (entry :: chain) left := by
  cases h with
  | unread hnone => exact .unread (List.forall_mem_cons.mpr ⟨hentry, hnone⟩)
  | found hfront hread => exact .found (List.forall_mem_cons.mpr ⟨hentry, hfront⟩) hread

theorem classify_settled (hc : c.offset ≤ c.source.length) (hlen : c.source.length ≤ limit)
    (hstart : start ≤ limit) (chain : List (τ × Shape)) : ∃ left,
      Offsets.classify limit c start stops chain = .ok left ∧
      Settled c start (left.1.map Prod.snd, left.2) ∧ FirstRead limit c start stops chain left ∧
      c.classify start stops chain = left.1.map fun found => (found.1, found.2, left.2) := by
  -- A reader that finds nothing leaves the cursor as it was, for the rest of the chain.
  induction chain with
  | nil => exact ⟨(none, c), rfl, .unread, .unread (by simp), rfl⟩
  | cons entry chain ih =>
    obtain ⟨tag, shape⟩ := entry
    obtain ⟨left, hread, hsettled, heq⟩ := read_settled hc hlen hstart shape stops
    cases hsettled with
    | unread =>
      obtain ⟨left, hclassify, hsettled, hfirst, hchain⟩ := ih
      refine ⟨left, ?_, hsettled, hfirst.cons hread, ?_⟩
      · rw [Offsets.classify, hread]
        exact hclassify
      · simp only [Cursor.classify, List.findSome?_cons, heq]
        exact hchain
    | @read stop c' hlt hle hahead hmax hexact =>
      have hfirst : FirstRead limit c start stops ([] ++ (tag, shape) :: chain)
          (some (tag, stop), c') := .found (by simp) hread
      refine ⟨(some (tag, stop), c'), ?_, .read hlt hle hahead hmax hexact, hfirst, ?_⟩
      · rw [Offsets.classify, hread]
        rfl
      · simp only [Cursor.classify, List.findSome?_cons, heq]
        rfl

end Chain

/-- With offsets up to some limit, in a source that is no longer, each reader and each chain
of readers comes to an answer wherever it starts, the same as without a limit. It leaves the
cursor alone, or it has read something that is not empty and has gone to its end. -/
theorem reading_settled {limit : Nat} {c : Cursor} (hc : c.offset ≤ c.source.length)
    (hlen : c.source.length ≤ limit) {start : Nat} (hstart : start ≤ limit) :
    (∀ shape stops, ∃ left, Offsets.read limit c shape start stops = .ok left ∧
      Settled c start left ∧ c.read shape start stops = left.1.map (·, left.2)) ∧
    (∀ quote, isAscii quote = true → ∃ left, Offsets.readQuoted limit c start quote = .ok left ∧
      Settled c start left ∧ c.readQuoted start quote = .ok (left.1.map (·, left.2))) ∧
    ∀ (τ : Type) (stops : StopSet) (chain : List (τ × Shape)), ∃ left,
      Offsets.classify limit c start stops chain = .ok left ∧
      Settled c start (left.1.map Prod.snd, left.2) ∧ FirstRead limit c start stops chain left ∧
      c.classify start stops chain = left.1.map fun found => (found.1, found.2, left.2) :=
  ⟨read_settled hc hlen hstart, fun _ => readQuoted_settled hc hlen,
    fun _ _ => classify_settled hc hlen hstart⟩

/-- A number in front of a blank, with the cursor behind both. -/
def behindNumber : Cursor := ⟨.ofString "12 '", ⟨3, 1, 4⟩⟩

/-- From the largest offset there is nothing to read, and no check fails. The number is read
from its own offset, and the cursor stays where it was, ahead of it. -/
theorem read_largest_offset :
    (∃ left, Offsets.classify (2 ^ 64 - 1) behindNumber (2 ^ 64 - 1) .whitespace
      [(0, Shape.integer), (1, .word)] = .ok left ∧ left.1 = none) ∧
    Offsets.read (2 ^ 64 - 1) behindNumber .integer 0 .whitespace = .ok (some 2, behindNumber) ∧
      Settled behindNumber 0 (some 2, behindNumber) := by
  have hc : behindNumber.offset ≤ behindNumber.source.length := by decide
  have hlen : behindNumber.source.length ≤ 2 ^ 64 - 1 := by decide
  constructor
  · obtain ⟨-, -, hchain⟩ := reading_settled hc hlen (Nat.le_refl (2 ^ 64 - 1))
    obtain ⟨⟨found, c'⟩, hleft, hsettled, -⟩ :=
      hchain Nat .whitespace [(0, .integer), (1, .word)]
    refine ⟨_, hleft, ?_⟩
    cases found with
    | none => rfl
    | some found =>
      obtain ⟨tag, stop⟩ := found
      have hlength : behindNumber.source.length = 4 := by decide
      cases hsettled with
      | read hlt hle => omega
  · obtain ⟨hread, -⟩ := reading_settled hc hlen (Nat.zero_le (2 ^ 64 - 1))
    obtain ⟨left, hleft, hsettled, -⟩ := hread .integer .whitespace
    have hnumber : Offsets.read (2 ^ 64 - 1) behindNumber .integer 0 .whitespace =
        .ok (some 2, behindNumber) := rfl
    rw [hnumber] at hleft
    cases hleft
    exact ⟨hnumber, hsettled⟩

end Lexing
