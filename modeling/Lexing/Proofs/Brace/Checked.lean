import Lexing.Brace.Checked
import Lexing.Brace.Expect
import Lexing.Proofs.Brace.Scan
import Lexing.Proofs.ScansLike
import Lexing.Proofs.Transaction

/-! In a source whose length is an offset, a scan of the brace language that starts between
characters fails no check and answers like the scan without checks. -/

namespace Lexing.Brace.Checked

def answer (e : Emission Features Kinds) : Except Misuse (Item Kinds × Cursor) :=
  e.result.map (·, e.cursor)

theorem token_eq (features : Features) (c : Cursor) (tag : Kinds) (start : Position) (stop : Nat) :
    token c tag start stop = answer (emitToken features c tag start stop) := by
  rw [token, emitToken, answer]
  cases c.token tag start stop <;> rfl

section Scan

variable {limit : Nat} {c : Cursor} (hc : c.offset ≤ c.source.length)
  (hlen : c.source.length ≤ limit)

include hc hlen

theorem skipGapWithin_eq (features : Features) (n : Nat) :
    skipGapWithin limit features n c = Brace.skipGapWithin features n c := by
  induction n generalizing c with
  | zero => rfl
  | succ n ih =>
    have hblank : c.skipWhitespace.offset ≤ c.source.length := Cursor.discardWhile_le hc _
    have hline : (skipLine c.skipWhitespace).offset ≤ c.source.length :=
      Cursor.discardWhile_le hblank _
    have hskip : Offsets.skipWhitespace limit c = .ok c.skipWhitespace :=
      Offsets.discardWhile_eq hc hlen _
    have hfeed : Offsets.discardUntil limit c.skipWhitespace (.ofList [lineFeed]) =
        .ok (skipLine c.skipWhitespace) := Offsets.discardWhile_eq hblank hlen _
    rw [skipGapWithin, Brace.skipGapWithin, hskip]
    simp only [bind, Except.bind]
    split
    · cases hcomment : atComment c.skipWhitespace with
      | error misuse => rfl
      | ok comment =>
        cases comment with
        | false => rfl
        | true =>
          simp only [hfeed]
          exact ih hline hlen
    · rfl

theorem skipGap_eq (features : Features) :
    skipGap limit features c = Brace.skipGap features c := skipGapWithin_eq hc hlen features _

/-- Behind the first byte of a lexeme the readers start from its offset. -/
theorem emitLexeme_eq (features : Features) (hne : c.rest ≠ []) :
    emitLexeme limit features c = answer (Brace.emitLexeme features c) := by
  obtain ⟨first, tail, hrest⟩ := List.exists_cons_of_ne_nil hne
  have hfirst : (c.pass [first]).offset ≤ c.source.length := Cursor.pass_le hc hrest
  have hstart : c.offset ≤ limit := Nat.le_trans hc hlen
  rw [emitLexeme, Brace.emitLexeme, Offsets.next_eq hc hlen hrest, Cursor.next_eq hrest]
  simp only [bind, Except.bind]
  cases punctuation? first with
  | some kind =>
    have hstop : Offsets.add limit c.position.offset 1 = .ok (c.position.offset + 1) := by
      apply Offsets.add_eq
      rw [Cursor.pass_offset] at hfirst
      exact Nat.le_trans hfirst hlen
    simp only [hstop]
    apply token_eq
  | none =>
    dsimp only
    split
    · obtain ⟨⟨stop, c'⟩, hread, hsettled, heq⟩ :=
        @readQuoted_settled limit _ c.position.offset hfirst hlen quoteMark rfl
      rw [hread, heq]
      cases hsettled with
      | unread => rfl
      | read => apply token_eq
    · obtain ⟨⟨found, c'⟩, hclassify, hsettled, -, heq⟩ :=
        @classify_settled Kinds limit _ c.position.offset (delimiters features) hfirst hlen hstart
          lexemes
      rw [hclassify, heq]
      cases found with
      | some found => apply token_eq
      | none =>
        cases hsettled
        rfl

end Scan

theorem emit_eq {limit : Nat} (features : Features) {c : Cursor} (hc : c.OnBoundary)
    (hlen : c.source.length ≤ limit) : emit limit features c = answer (Brace.emit features c) := by
  obtain ⟨gap, tail, -, hskip, hbound, -, -⟩ := Brace.skipGap_eq features hc
  rw [emit, Brace.emit, skipGap_eq hc.le hlen, hskip]
  simp only [bind, Except.bind]
  split
  · rfl
  · next hmore =>
    apply emitLexeme_eq hbound.le hlen
    exact fun hempty => hmore (Cursor.atEnd_iff.mpr hempty)

/-- Between characters of a source, all checks hold. -/
theorem scansLike {limit : Nat} {source : Source} (hlen : source.length ≤ limit) :
    ScansLike (Checked.mk limit) fun c => c.source = source ∧ c.OnBoundary := by
  constructor
  · rintro features c ⟨rfl, hc⟩
    obtain ⟨bs, tail, item, -, -, hend, hemit⟩ := Brace.emit_eq features hc
    have hchecked : emit limit features c >>= inSource = .ok (item, c.pass bs) := by
      rw [emit_eq features hc hlen, hemit]
      cases item with
      | error e => rfl
      | ok token => exact if_neg (Nat.not_lt.mpr hend.le)
    show scan ⟨limit, features⟩ c = (Brace.emit features c).mapGrammar (Checked.mk limit)
    rw [scan, hchecked, hemit]
    rfl
  · rintro features c ⟨rfl, hc⟩
    obtain ⟨bs, tail, item, -, -, hend, hemit⟩ := Brace.emit_eq features hc
    have hcursor : (Grammar.emit features c).cursor = c.pass bs := congrArg Emission.cursor hemit
    rw [hcursor]
    exact ⟨rfl, hend⟩

theorem expect_eq {f : Features → Checked} {P : Cursor → Prop} (h : ScansLike f P)
    {t : BraceTokenizer} (ht : P t.cursor) (expected : Kinds) :
    expect (t.mapGrammar f) expected = (expect t expected).map id (Tokenizer.mapGrammar f) := by
  rw [expect, expect, h.next_eq ht]
  rcases t.next with ⟨fault | e | token, u⟩
  · rfl
  · rfl
  · simp only [Prod.map, id]
    split
    · rfl
    · rw [ScansLike.push_mapGrammar]
      cases u.push token <;> rfl

end Lexing.Brace.Checked
