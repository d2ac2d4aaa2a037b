import Lexing.Offsets
import Lexing.Proofs.Cursor
import Lexing.Proofs.Shape

/-! In a source whose length is an offset no check of an offset fails, and the answers are
those of the cursor without checks. -/

namespace Lexing.Offsets

section Checks

variable {limit : Nat} {bytes : List UInt8} {start stop : Nat}

theorem add_eq {m n : Nat} (h : m + n ≤ limit) : add limit m n = .ok (m + n) := if_pos h

theorem range_eq (hle : start ≤ stop) (hstop : stop ≤ bytes.length) :
    range bytes start stop = .ok ((bytes.drop start).take (stop - start)) := if_pos ⟨hle, hstop⟩

theorem rangeFrom_eq (bytes : List UInt8) (start : Nat) :
    rangeFrom bytes start = .ok (bytes.drop start) := by
  have htake : ∀ n, (bytes.drop n).take (bytes.length - n) = bytes.drop n := by
    intro n
    rw [← List.length_drop, List.take_length]
  rw [rangeFrom, range_eq (Nat.min_le_right _ _) (Nat.le_refl _), htake]
  rcases Nat.le_total start bytes.length with hle | hle
  · rw [Nat.min_eq_left hle]
  · rw [Nat.min_eq_right hle, List.drop_length, List.drop_eq_nil_of_le hle]

theorem signLengthAt_eq (bytes : List UInt8) (start : Nat) :
    signLengthAt bytes start = signLength (bytes.drop start) := by
  rw [signLengthAt, signLength, List.head?_drop]

theorem digitCountAt_eq (bytes : List UInt8) (start : Nat) :
    digitCountAt bytes start = .ok (digitCount (bytes.drop start)) := by
  rw [digitCountAt, rangeFrom_eq]
  rfl

theorem terminatedAt_eq (stops : StopSet) (bytes : List UInt8) (stop : Nat) :
    terminatedAt stops bytes stop = terminated stops (bytes.drop stop) := by
  rw [terminatedAt, ← List.head?_drop]
  cases bytes.drop stop <;> rfl

/-- Within the bytes that are left no sum exceeds the largest offset. -/
theorem add_le_limit (hlen : bytes.length ≤ limit) (hstart : start ≤ limit) {n : Nat}
    (hn : n ≤ (bytes.drop start).length) : start + n ≤ limit := by
  rw [List.length_drop] at hn
  omega

end Checks

section Ends

variable {limit : Nat} {bytes : List UInt8} {start : Nat}

theorem add_within (hlen : bytes.length ≤ limit) (hstart : start ≤ limit) {m n : Nat}
    (h : m + n ≤ (bytes.drop start).length) :
    add limit (start + m) n = .ok (start + (m + n)) := by
  have hle := add_le_limit hlen hstart h
  rw [← Nat.add_assoc] at hle ⊢
  exact add_eq hle

theorem digitCountAt_add (bytes : List UInt8) (start n : Nat) :
    digitCountAt bytes (start + n) = .ok (digitCount ((bytes.drop start).drop n)) := by
  rw [digitCountAt_eq, List.drop_drop]

theorem getElem?_start_add (bytes : List UInt8) (start n : Nat) :
    bytes[start + n]? = ((bytes.drop start).drop n).head? := by
  rw [List.drop_drop, List.head?_drop]

/-- A lexeme that ends at an offset is as long as the offset is behind its start. -/
theorem terminatedEnd?_add (stops : StopSet) (bytes : List UInt8) (start n : Nat) :
    terminatedEnd? stops bytes (start + n) =
      (if terminated stops ((bytes.drop start).drop n) = true then some n else none).map
        (start + ·) := by
  rw [terminatedEnd?, terminatedAt_eq, List.drop_drop]
  split <;> rfl

/-- Without digits there is no number, also where a stop comes next. -/
theorem ite_digits_eq (n m start : Nat) (p : Prop) [Decidable p] :
    (if n = 0 then pure none else pure ((if p then some m else none).map (start + ·)) :
      Except Misuse (Option Nat)) =
        .ok ((if n ≠ 0 ∧ p then some m else none).map (start + ·)) := by
  split
  · next hzero =>
    rw [if_neg fun h => h.1 hzero]
    rfl
  · next hdigits =>
    simp only [hdigits, ne_eq, not_false_eq_true, true_and]
    rfl

theorem digitCount_le (bs : List UInt8) : digitCount bs ≤ bs.length :=
  (List.takeWhile_prefix _).length_le

theorem signLength_add_digitCount_le (bs : List UInt8) :
    signLength bs + digitCount (bs.drop (signLength bs)) ≤ bs.length := by
  have hdigits := digitCount_le (bs.drop (signLength bs))
  have hsign : signLength bs ≤ bs.length := by
    rw [signLength]
    split
    · next hminus => cases bs <;> simp at hminus ⊢
    · exact Nat.zero_le _
  rw [List.length_drop] at hdigits
  omega

theorem integerEnd?_eq (hlen : bytes.length ≤ limit) (hstart : start ≤ limit) (stops : StopSet) :
    integerEnd? limit stops bytes start =
      .ok ((Shape.integerLength? stops (bytes.drop start)).map (start + ·)) := by
  have hle := signLength_add_digitCount_le (bytes.drop start)
  have hfirst := add_eq (add_le_limit hlen hstart (Nat.le_of_add_right_le hle))
  simp only [integerEnd?, Shape.integerLength?, signLengthAt_eq, hfirst, digitCountAt_add,
    add_within hlen hstart hle, terminatedEnd?_add, bind, Except.bind]
  exact ite_digits_eq _ _ _ _

theorem decimalEnd?_eq (hlen : bytes.length ≤ limit) (hstart : start ≤ limit) (stops : StopSet) :
    decimalEnd? limit stops bytes start =
      .ok ((Shape.decimalLength? stops (bytes.drop start)).map (start + ·)) := by
  have hle := signLength_add_digitCount_le (bytes.drop start)
  have hfirst := add_eq (add_le_limit hlen hstart (Nat.le_of_add_right_le hle))
  simp only [decimalEnd?, Shape.decimalLength?, signLengthAt_eq, hfirst, digitCountAt_add,
    add_within hlen hstart hle, getElem?_start_add, terminatedEnd?_add, bind, Except.bind]
  generalize signLength (bytes.drop start) + digitCount _ = whole at *
  split
  · next hpoint =>
    -- The point is one of the bytes that are left, and the digits behind it are others.
    have hpos := List.length_pos_of_mem (List.mem_of_head? hpoint)
    have hplaces := digitCount_le ((bytes.drop start).drop (whole + 1))
    rw [List.length_drop] at hpos hplaces
    have hbehind : whole + 1 ≤ (bytes.drop start).length := by omega
    have hstop : whole + (1 + digitCount ((bytes.drop start).drop (whole + 1))) ≤
        (bytes.drop start).length := by omega
    have hlast := add_le_limit hlen hstart hstop
    have hfraction : 1 + digitCount ((bytes.drop start).drop (whole + 1)) ≤ limit := by omega
    simp only [add_within hlen hstart hbehind, digitCountAt_add, add_eq hfraction,
      add_within hlen hstart hstop, terminatedEnd?_add, Nat.add_assoc]
    exact ite_digits_eq _ _ _ _
  · exact ite_digits_eq _ _ _ _

theorem wordEnd?_eq (hlen : bytes.length ≤ limit) (hstart : start ≤ limit) (stops : StopSet) :
    wordEnd? limit stops bytes start =
      .ok ((Shape.wordLength? stops (bytes.drop start)).map (start + ·)) := by
  have hle : ((bytes.drop start).takeWhile fun b => !stops.contains b).length ≤
      (bytes.drop start).length := (List.takeWhile_prefix _).length_le
  simp only [wordEnd?, Shape.wordLength?, rangeFrom_eq, bind, Except.bind,
    add_eq (add_le_limit hlen hstart hle)]
  split <;> rfl

theorem lexemeEnd?_eq (hlen : bytes.length ≤ limit) (hstart : start ≤ limit) (shape : Shape)
    (stops : StopSet) : lexemeEnd? limit shape stops bytes start =
      .ok ((shape.length? stops (bytes.drop start)).map (start + ·)) := by
  cases shape with
  | integer => exact integerEnd?_eq hlen hstart stops
  | decimal => exact decimalEnd?_eq hlen hstart stops
  | word => exact wordEnd?_eq hlen hstart stops

theorem range_behind {b : UInt8} {body : List UInt8} (h : bytes.drop start = b :: body) :
    range bytes (start + 1) bytes.length = .ok body ∧
      start + 1 + body.length = bytes.length := by
  have hlength := congrArg List.length h
  rw [List.length_drop, List.length_cons] at hlength
  have hbody : bytes.drop (start + 1) = body := by
    rw [← List.drop_drop, h, List.drop_one, List.tail_cons]
  refine ⟨?_, by omega⟩
  rw [range_eq (by omega) (Nat.le_refl _), hbody, List.take_of_length_le (by omega)]

theorem quotedEnd?_eq (hlen : bytes.length ≤ limit) (quote : UInt8) :
    quotedEnd? limit quote bytes start =
      .ok ((Shape.quotedLength? quote (bytes.drop start)).map (start + ·)) := by
  rw [quotedEnd?, ← List.head?_drop]
  cases hdrop : bytes.drop start with
  | nil => rfl
  | cons b body =>
    obtain ⟨hrange, hcount⟩ := range_behind hdrop
    by_cases hquote : b = quote
    · subst hquote
      have hfirst : add limit start 1 = .ok (start + 1) := add_eq (by omega)
      simp only [List.head?_cons, if_true, hfirst, hrange, bind, Except.bind]
      by_cases hmem : b ∈ body
      · obtain ⟨inner, tail, rfl, hinner⟩ := List.eq_append_cons_of_mem hmem
        rw [List.length_append, List.length_cons] at hcount
        have hlast : add limit (start + 1) inner.length = .ok (start + 1 + inner.length) :=
          add_eq (by omega)
        have hstop : add limit (start + 1 + inner.length) 1 = .ok (start + (inner.length + 2)) := by
          rw [add_eq (by omega)]
          congr 1
          omega
        rw [idxOf?_append_cons hinner, quotedLength?_eq_some hinner]
        simp only [hlast, hstop]
        rfl
      · rw [List.idxOf?_eq_none_iff.mpr hmem, quotedLength?_eq_none hmem]
        rfl
    · rw [List.head?_cons, if_neg fun h => hquote (Option.some.inj h), Shape.quotedLength?,
        if_neg fun h => hquote h.1]
      rfl

end Ends

section Cursor

variable {limit : Nat} {c : Cursor} {start : Nat}

/-- Where the bytes end at `stop`, both ways of counting come to the same. -/
theorem advance_eq (p : Position) {skipped : List UInt8} (hne : skipped ≠ []) :
    advance p (p.offset + skipped.length) skipped = .ok (p.advance skipped) := by
  have hempty : skipped.isEmpty = false := by simpa using hne
  rw [advance, Position.advance, hempty, if_neg Bool.false_ne_true]
  cases hlast : Position.lastLineFeed? skipped with
  | none => rfl
  | some last =>
    obtain ⟨i, -, rfl⟩ := Option.map_eq_some_iff.mp hlast
    have hle : skipped.length - 1 - i ≤ skipped.length := by omega
    simp only [sub, if_pos hle]
    rfl

theorem advanceTo_eq (hc : c.offset ≤ c.source.length) {stop : Nat}
    (hstop : stop ≤ c.source.length) : advanceTo c stop = .ok (c.advanceTo stop) := by
  rw [advanceTo, if_neg (Nat.not_lt.mpr hstop)]
  split
  · next hle =>
    rw [Cursor.advanceTo_eq, Nat.sub_eq_zero_of_le hle]
    rfl
  · next hlt =>
    have hskipped : (c.rest.take (stop - c.offset)).length = stop - c.offset := by
      rw [List.length_take, Cursor.length_rest]
      omega
    have hne : c.rest.take (stop - c.offset) ≠ [] := by
      intro hempty
      rw [hempty, List.length_nil] at hskipped
      omega
    have hadvance := advance_eq c.position hne
    have hend : c.position.offset + (stop - c.offset) = stop := by
      show c.offset + (stop - c.offset) = stop
      omega
    rw [hskipped, hend] at hadvance
    rw [range_eq (by omega) hstop]
    show (advance c.position stop (c.rest.take (stop - c.offset)) >>= _) = _
    rw [hadvance]
    rfl

variable (hc : c.offset ≤ c.source.length) (hlen : c.source.length ≤ limit)

include hc hlen

/-- Bytes that are left can be moved over. -/
theorem advanceTo_within {n : Nat} (hn : n ≤ c.rest.length) :
    add limit c.offset n >>= advanceTo c = .ok (c.advanceTo (c.offset + n)) := by
  have hrest := c.length_rest
  have hstop : c.offset + n ≤ c.source.length := by omega
  rw [add_eq (Nat.le_trans hstop hlen)]
  exact advanceTo_eq hc hstop

theorem next_eq {b : UInt8} {tail : List UInt8} (hrest : c.rest = b :: tail) :
    next limit c = .ok (b, c.pass [b]) := by
  have hoffset : c.offset + 1 ≤ limit := by
    have hle : (c.pass [b]).offset ≤ c.source.length := Cursor.pass_le hc hrest
    rw [Cursor.pass_offset] at hle
    exact Nat.le_trans hle hlen
  rw [next, Cursor.next_eq hrest, add_eq hoffset]
  have hpass := c.pass_offset [b]
  rw [List.length_singleton] at hpass
  rw [← hpass]
  rfl

theorem discardWhile_eq (p : UInt8 → Bool) :
    discardWhile limit c p = .ok (c.discardWhile p) := by
  have hrange : range c.source.bytes c.offset c.source.length = .ok c.rest := by
    have hle : c.offset ≤ c.source.bytes.length := hc
    have hdrop := rangeFrom_eq c.source.bytes c.offset
    rw [rangeFrom, Nat.min_eq_left hle] at hdrop
    exact hdrop
  rw [discardWhile, hrange]
  exact advanceTo_within hc hlen (List.takeWhile_prefix p).length_le

end Cursor

end Lexing.Offsets
