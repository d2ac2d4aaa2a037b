import Lexing.Proofs.Boundary
import Lexing.Proofs.Shape

/-! Stops inside lexemes. A word ends in front of the first stop. A numeral is measured by
its own bytes and asks for a stop only behind it, so a stop that is a part of numerals can be
read over. The point is such a stop: it ends an integer, but a decimal goes on behind it. -/

namespace Lexing

/-- Somewhere, a lexeme of the shape is read with this stop among its bytes. -/
def Shape.Overruns (shape : Shape) (stops : StopSet) (b : UInt8) : Prop :=
  b ∈ stops ∧ ∃ (c c' : Cursor) (start stop : Nat), c.read shape start stops = some (stop, c') ∧
    b ∈ (c.source.bytes.drop start).take (stop - start)

variable {shape : Shape} {stops : StopSet} {b : UInt8}

theorem Cursor.exists_of_read {c c' : Cursor} {start stop : Nat}
    (h : c.read shape start stops = some (stop, c')) : ∃ run tail,
      c.source.bytes.drop start = run ++ tail ∧ shape.Fits run ∧ terminated stops tail = true ∧
        stop = start + run.length ∧ c' = c.advanceTo stop := by
  obtain ⟨n, hlen, heq⟩ := Option.map_eq_some_iff.mp h
  obtain ⟨run, tail, hdrop, hfits, htail, rfl⟩ := Shape.fits_of_length? hlen
  cases heq
  exact ⟨run, tail, hdrop, hfits, htail, rfl, rfl⟩

/-- A stop that is read over is a part of something that is written in the shape. -/
theorem Shape.Overruns.exists_fits (h : shape.Overruns stops b) :
    ∃ run, shape.Fits run ∧ b ∈ run := by
  obtain ⟨-, c, c', start, stop, hread, hb⟩ := h
  obtain ⟨run, tail, hdrop, hfits, -, rfl, -⟩ := Cursor.exists_of_read hread
  rw [hdrop, Nat.add_sub_cancel_left, List.take_left] at hb
  exact ⟨run, hfits, hb⟩

theorem Shape.not_word_overruns : ¬ Shape.word.Overruns stops b := by
  rintro ⟨hstop, c, c', start, stop, hread, hb⟩
  obtain ⟨n, hlen, heq⟩ := Option.map_eq_some_iff.mp hread
  cases heq
  obtain ⟨run, tail, hdrop, hrun⟩ :=
    Stretch.exists_eq_append (fun b => !stops.contains b) (c.source.bytes.drop start)
  rw [hdrop] at hlen hb
  obtain ⟨-, rfl⟩ := (wordLength?_eq_some_iff hrun).mp hlen
  rw [Nat.add_sub_cancel_left, List.take_left] at hb
  exact hrun.not_mem_stops b hb hstop

section Numerals

/-- At the end of the input a numeral is read whole, whatever the stops are. -/
theorem Shape.length?_of_fits_end (hshape : shape ≠ .word) {run : List UInt8}
    (h : shape.Fits run) : shape.length? stops run = some run.length := by
  have hnone : ∀ b ∈ ([] : List UInt8).head?, isDigit b = false := fun b hb => by contradiction
  have hlen : shape.length? stops (run ++ []) = some run.length := by
    cases shape with
    | integer => exact integerLength?_of_isInteger h hnone rfl
    | decimal =>
      rcases h with hint | hdec
      · exact decimalLength?_of_isInteger hint hnone nofun rfl
      · exact decimalLength?_of_isDecimal hdec hnone rfl
    | word => exact absurd rfl hshape
  rwa [List.append_nil] at hlen

/-- A source that is one numeral is read over all stops in it. -/
theorem Shape.overruns_of_fits (hshape : shape ≠ .word) {source : Source}
    (hfits : shape.Fits source.bytes) (hb : b ∈ source.bytes) (hstop : b ∈ stops) :
    shape.Overruns stops b := by
  have hlen : shape.length? stops source.bytes = some source.bytes.length :=
    Shape.length?_of_fits_end hshape hfits
  have hread : (Cursor.ofSource source).read shape 0 stops = some (0 + source.bytes.length,
      (Cursor.ofSource source).advanceTo (0 + source.bytes.length)) :=
    congrArg (Option.map _) hlen
  refine ⟨hstop, _, _, _, _, hread, ?_⟩
  rw [Nat.add_sub_cancel_left]
  simpa [Cursor.ofSource] using hb

/-- A source of one byte. -/
theorem exists_source_of_ascii (hb : isAscii b = true) : ∃ source : Source, source.bytes = [b] := by
  have hlt : b.toNat < 128 := by simpa [isAscii, UInt8.lt_iff_toNat_lt] using hb
  have hval : (Char.ofUInt8 b).val.toNat = b.toNat := UInt8.toNat_toUInt32 b
  refine ⟨.ofChars [Char.ofUInt8 b], ?_⟩
  show encode [Char.ofUInt8 b] = [b]
  rw [encode_cons, encode_nil, List.append_nil, String.utf8EncodeChar, hval, if_pos (by omega)]
  simp

/-- Where integers are read, each digit and the minus is read over. -/
theorem Shape.overruns_of_integer (hshape : shape ≠ .word)
    (hint : ∀ run, IsInteger run → shape.Fits run) (hstop : b ∈ stops)
    (hb : isDigit b = true ∨ b = minusSign) : shape.Overruns stops b := by
  rcases hb with hdigit | rfl
  · obtain ⟨source, hsource⟩ := exists_source_of_ascii (StopSet.isAscii_of_mem hstop)
    have hwritten : IsInteger source.bytes :=
      ⟨[], [b], hsource, .inl rfl, by simpa [IsDigits] using hdigit, by simp⟩
    exact Shape.overruns_of_fits hshape (hint _ hwritten) (by simp [hsource]) hstop
  · have hwritten : IsInteger (Source.ofString "-0").bytes :=
      ⟨[minusSign], [48], rfl, .inr rfl, by simp [IsDigits, isDigit], by simp⟩
    exact Shape.overruns_of_fits hshape (hint _ hwritten) (by decide) hstop

end Numerals

/-- No word is read over a stop. An integer is read over those that are a digit or the
minus, a decimal over those and over the point, and neither over any other. -/
theorem overruns_iff (stops : StopSet) (b : UInt8) : ¬ Shape.word.Overruns stops b ∧
    (Shape.integer.Overruns stops b ↔ b ∈ stops ∧ (isDigit b = true ∨ b = minusSign)) ∧
    (Shape.decimal.Overruns stops b ↔
      b ∈ stops ∧ (isDigit b = true ∨ b = minusSign ∨ b = decimalPoint)) := by
  refine ⟨Shape.not_word_overruns, ⟨fun h => ?_, ?_⟩, ⟨fun h => ?_, ?_⟩⟩
  · obtain ⟨run, hint, hb⟩ := h.exists_fits
    exact ⟨h.1, IsInteger.mem_cases hint hb⟩
  · rintro ⟨hstop, hb⟩
    exact Shape.overruns_of_integer (by decide) (fun run hint => hint) hstop hb
  · obtain ⟨run, hint | hdec, hb⟩ := h.exists_fits
    · exact ⟨h.1, (hint.mem_cases hb).imp_right .inl⟩
    · exact ⟨h.1, hdec.mem_cases hb⟩
  · rintro ⟨hstop, hdigit | hminus | rfl⟩
    · exact Shape.overruns_of_integer (by decide) (fun run hint => .inl hint) hstop (.inl hdigit)
    · exact Shape.overruns_of_integer (by decide) (fun run hint => .inl hint) hstop (.inr hminus)
    · have hwritten : IsDecimal (Source.ofString ".0").bytes :=
        ⟨[], [], [48], rfl, .inl rfl, by simp [IsDigits], by simp [IsDigits, isDigit], by simp⟩
      exact Shape.overruns_of_fits (by decide) (.inr hwritten) (by decide) hstop

/-- Where the minus is a stop, an integer with a minus in front is still read. -/
theorem minus_overrun : ¬ ∀ (shape : Shape) (stops : StopSet) (b : UInt8),
    ¬ shape.Overruns stops b := by
  intro h
  have hread : (Cursor.ofSource (.ofString "-7;")).read .integer 0 (.ofList [minusSign, 59]) =
      some (2, ⟨.ofString "-7;", ⟨2, 1, 3⟩⟩) := by decide
  exact h .integer (.ofList [minusSign, 59]) minusSign
    ⟨by decide, _, _, _, _, hread, by decide⟩

/-- Wherever an integer is read, a decimal is read as well, up to the same end. -/
def StopSet.IntegersAreDecimals (stops : StopSet) : Prop :=
  ∀ (c : Cursor) (start : Nat) (left : Nat × Cursor),
    c.read .integer start stops = some left → c.read .decimal start stops = some left

section Point

variable {bs : List UInt8} {n : Nat}

theorem decimalLength?_of_integerLength? (h : Shape.integerLength? stops bs = some n) :
    Shape.decimalLength? stops bs = some n ↔ bs[n]? ≠ some decimalPoint := by
  obtain ⟨sign, digits, tail, rfl, hnum⟩ := Numeral.exists_eq_append bs
  rw [hnum.integerLength?_eq] at h
  split at h
  · next hcond =>
    obtain rfl := Option.some.inj h
    have hnext : (sign ++ digits ++ tail)[0 + (sign ++ digits).length]? = tail.head? :=
      getElem?_behind rfl
    rw [Nat.zero_add] at hnext
    rw [hnext]
    by_cases hpoint : tail.head? = some decimalPoint
    · obtain ⟨rest, rfl⟩ := List.head?_eq_some_iff.mp hpoint
      obtain ⟨places, tail, rfl, hplaces⟩ := Stretch.exists_eq_append isDigit rest
      refine iff_of_false ?_ (not_not_intro hpoint)
      -- With digits behind the point the decimal is longer, without any there is none.
      rw [hnum.decimalLength?_of_point hplaces]
      intro hdec
      split at hdec
      · have hlen := Option.some.inj hdec
        rw [List.length_append, List.length_cons] at hlen
        omega
      · contradiction
    · refine iff_of_true ?_ hpoint
      rw [hnum.decimalLength?_of_no_point hpoint, if_pos hcond]
  · contradiction

theorem Cursor.read_decimal_of_integer {c : Cursor} {start : Nat} {left : Nat × Cursor}
    (h : c.read .integer start stops = some left) :
    c.read .decimal start stops = some left ↔ c.source.bytes[left.1]? ≠ some decimalPoint := by
  obtain ⟨n, hlen, rfl⟩ := Option.map_eq_some_iff.mp h
  have hget : (c.source.bytes.drop start)[n]? = c.source.bytes[start + n]? := List.getElem?_drop
  rw [← hget, ← decimalLength?_of_integerLength? hlen]
  constructor
  · intro hread
    obtain ⟨m, hdec, heq⟩ := Option.map_eq_some_iff.mp hread
    obtain rfl := Nat.add_left_cancel (Prod.mk.inj heq).1
    exact hdec
  · intro hdec
    exact congrArg (Option.map _) hdec

end Point

/-- An integer is read as a decimal if no point comes behind it, and a point comes behind
integers exactly if it is a stop. -/
theorem integersAreDecimals_iff (stops : StopSet) :
    (∀ (c : Cursor) (start : Nat) (left : Nat × Cursor), c.read .integer start stops = some left →
      (c.read .decimal start stops = some left ↔
        c.source.bytes[left.1]? ≠ some decimalPoint)) ∧
    (stops.IntegersAreDecimals ↔ decimalPoint ∉ stops) := by
  refine ⟨fun c start left => Cursor.read_decimal_of_integer, ?_, ?_⟩
  · intro hall hstop
    have hseven : IsInteger [55] := ⟨[], [55], rfl, .inl rfl, by simp [IsDigits, isDigit], by simp⟩
    have hlen : Shape.integerLength? stops ([55] ++ [decimalPoint]) = some 1 :=
      integerLength?_of_isInteger hseven (by simp; decide)
        (terminated_iff.mpr (by simpa using hstop))
    have hread : (Cursor.ofSource (.ofString "7.")).read .integer 0 stops = some (0 + 1, _) :=
      congrArg (Option.map _) hlen
    exact (Cursor.read_decimal_of_integer hread).mp (hall _ _ _ hread) (by decide)
  · rintro hpoint c start ⟨stop, c'⟩ hread
    rw [Cursor.read_decimal_of_integer hread]
    intro hnext
    obtain ⟨run, tail, hdrop, -, htail, rfl, -⟩ := Cursor.exists_of_read hread
    rw [getElem?_behind hdrop] at hnext
    exact hpoint (terminated_iff.mp htail _ hnext)

/-- Where the point is a stop, a point behind an integer leaves no decimal to read. -/
theorem not_integersAreDecimals_point : ¬ ∀ stops : StopSet, stops.IntegersAreDecimals := by
  intro h
  have hint : (Cursor.ofSource (.ofString "7.")).read .integer 0 (.ofList [decimalPoint]) =
      some (1, ⟨.ofString "7.", ⟨1, 1, 2⟩⟩) := by decide
  have hdec : (Cursor.ofSource (.ofString "7.")).read .decimal 0 (.ofList [decimalPoint]) =
      none := by decide
  rw [h _ _ _ _ hint] at hdec
  contradiction

end Lexing
