import Lexing.Proofs.Cursor
import Lexing.Proofs.Stops

/-! Lexemes as texts. Readers go by bytes, but a lexeme ends in front of a stop, behind a quote
or where the source ends, and each of these offsets is between two characters. So a start
between two characters gives a text, wherever the cursor is, and no other start gives one. -/

namespace Lexing

namespace Source

/-- A text that is not empty, and that every cursor in the source cuts out and makes tokens
of. -/
structure Excerpt (s : Source) (start stop : Nat) (text : String) : Prop where
  ne_empty : text ≠ ""
  bytes_eq : encode text.toList = (s.bytes.drop start).take (stop - start)
  slice_eq : ∀ p, Cursor.slice ⟨s, p⟩ start stop = .ok text
  token_eq : ∀ (τ : Type) (tag : τ) (p place : Position), place.offset = start →
    Cursor.token ⟨s, p⟩ tag place stop = .ok ⟨tag, some text, place⟩

/-- An end that divides no character. Whether there is a text up to it depends on the start
alone. -/
structure LexemeEnd (s : Source) (start stop : Nat) : Prop where
  lt : start < stop
  boundary : s.Boundary stop
  excerpt : s.Boundary start → ∃ text, s.Excerpt start stop text
  broken : ¬ s.Boundary start → ∀ p, Cursor.slice ⟨s, p⟩ start stop = .error .brokenRange

variable {s : Source} {start stop : Nat}

theorem exists_excerpt (hstart : s.Boundary start) (hstop : s.Boundary stop) (hlt : start < stop) :
    ∃ text, s.Excerpt start stop text := by
  obtain ⟨text, hcut, hbytes⟩ := hstart.cut hstop (Nat.le_of_lt hlt)
  have hne : text ≠ "" := by
    rintro rfl
    have hlen := congrArg List.length hbytes
    have hle : stop ≤ s.bytes.length := hstop.le
    rw [List.length_take, List.length_drop] at hlen
    change 0 = _ at hlen
    omega
  refine ⟨text, hne, hbytes, fun p => Cursor.slice_of_cut (Nat.le_of_lt hlt) hcut, ?_⟩
  rintro τ tag p place rfl
  exact Cursor.token_of_cut tag (Nat.le_of_lt hlt) hcut hne

/-- The end decides on the text as far as the start lets it. -/
theorem Boundary.lexemeEnd (hstop : s.Boundary stop) (hlt : start < stop) :
    s.LexemeEnd start stop := by
  refine ⟨hlt, hstop, fun hstart => exists_excerpt hstart hstop hlt, fun hstart p => ?_⟩
  have hcut : s.cut? start stop = none := by
    rw [Option.eq_none_iff_forall_ne_some]
    intro text htext
    exact hstart (boundary_of_cut (Nat.le_of_lt hlt) htext).1
  rw [Cursor.slice, if_neg (Nat.not_lt_of_le (Nat.le_of_lt hlt)), hcut]

/-- Behind a run that comes before a byte below 128 or before the end. -/
theorem lexemeEnd_of_run {run tail : List UInt8} (hdrop : s.bytes.drop start = run ++ tail)
    (hrun : run ≠ []) (htail : ∀ b ∈ tail.head?, isAscii b = true) :
    s.LexemeEnd start (start + run.length) := by
  have hpos := List.length_pos_iff.mpr hrun
  have hrest : s.bytes.drop (start + run.length) = tail := by
    rw [← List.drop_drop, hdrop, List.drop_left]
  suffices hstop : s.Boundary (start + run.length) from hstop.lexemeEnd (by omega)
  cases tail with
  | nil =>
    have hlen := congrArg List.length hdrop
    rw [List.append_nil, List.length_drop] at hlen
    have hend : start + run.length = s.length := by
      show start + run.length = s.bytes.length
      omega
    rw [hend]
    exact s.boundary_length
  | cons b tail => exact (boundary_of_drop_eq_cons (htail b rfl) hrest).1

end Source

section Readers

variable {c : Cursor} {start : Nat} {left : Nat × Cursor}

theorem Cursor.read_lexemeEnd {shape : Shape} {stops : StopSet}
    (h : c.read shape start stops = some left) : c.source.LexemeEnd start left.1 := by
  obtain ⟨run, tail, hdrop, hfits, htail, hstop, -⟩ := Cursor.exists_of_read h
  rw [hstop]
  -- The byte behind a lexeme is a stop, and stops are ASCII.
  exact Source.lexemeEnd_of_run hdrop hfits.ne_nil fun b hb =>
    StopSet.isAscii_of_mem (terminated_iff.mp htail b hb)

theorem Cursor.readQuoted_lexemeEnd {quote : UInt8}
    (h : c.readQuoted start quote = .ok (some left)) : c.source.LexemeEnd start left.1 := by
  obtain ⟨hquote, n, hlen, rfl⟩ := Cursor.readQuoted_eq_some.mp h
  obtain ⟨body, tail, hdrop, -, rfl⟩ := exists_of_quotedLength? hlen
  -- Whatever comes next, the lexeme itself ends with a byte below 128.
  have hlast : c.source.bytes.drop (start + (body.length + 1)) = quote :: tail := by
    rw [← List.drop_drop, hdrop]
    exact List.drop_left
  exact (Source.boundary_of_drop_eq_cons hquote hlast).2.lexemeEnd (by omega)

theorem Cursor.classify_lexemeEnd {τ : Type} {stops : StopSet} {chain : List (τ × Shape)} {tag : τ}
    (h : c.classify start stops chain = some (tag, left)) : c.source.LexemeEnd start left.1 := by
  obtain ⟨shape, -, hread⟩ := Cursor.exists_of_classify h
  exact Cursor.read_lexemeEnd hread

end Readers

/-- Every reader answers with an end that divides no character, so that a start between two
characters gives a text. -/
theorem reading_lexemeEnd (c : Cursor) (start : Nat) :
    (∀ shape stops left, c.read shape start stops = some left →
      c.source.LexemeEnd start left.1) ∧
    (∀ quote left, c.readQuoted start quote = .ok (some left) →
      c.source.LexemeEnd start left.1) ∧
    ∀ (τ : Type) stops (chain : List (τ × Shape)) tag left,
      c.classify start stops chain = some (tag, left) → c.source.LexemeEnd start left.1 :=
  ⟨fun _ _ _ => Cursor.read_lexemeEnd, fun _ _ => Cursor.readQuoted_lexemeEnd,
    fun _ _ _ _ _ => Cursor.classify_lexemeEnd⟩

/-- A cursor that has consumed the first half of a character. -/
def halfway : Cursor := ⟨.ofString "üéß;", ⟨1, 1, 2⟩⟩

/-- From behind that character a text is read, and from the cursor itself none. -/
theorem lexemeEnd_halfway : ¬ halfway.OnBoundary ∧ halfway.source.Boundary 2 ∧
    (∃ text, halfway.source.Excerpt 2 6 text ∧ text = "éß") ∧
    halfway.slice 1 6 = .error .brokenRange := by
  obtain ⟨hread, -, -⟩ := reading_lexemeEnd halfway 2
  have hword := hread .word (.ofList [59]) (6, ⟨halfway.source, ⟨6, 1, 7⟩⟩) (by decide)
  obtain ⟨hread, -, -⟩ := reading_lexemeEnd halfway 1
  have hbroken := hread .word (.ofList [59]) (6, ⟨halfway.source, ⟨6, 1, 7⟩⟩) (by decide)
  have hstart : halfway.source.Boundary 2 := by decide
  obtain ⟨text, htext⟩ := hword.excerpt hstart
  refine ⟨by decide, hstart, ⟨text, htext, ?_⟩, hbroken.broken (by decide) _⟩
  have hslice : halfway.slice 2 6 = .ok "éß" := rfl
  exact Except.ok.inj ((htext.slice_eq halfway.position).symm.trans hslice)

end Lexing
