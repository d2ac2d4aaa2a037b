import Lexing.Proofs.Brace.Lines
import Lexing.Proofs.Brace.Location

/-! Resuming a run. A scan looks at nothing before the cursor, so the items that are left
are those of what is left, read as a source of its own, only further on. -/

namespace Lexing

/-- Where a place of a text is once the text starts at `p`. Only its first line has
something in front of it. -/
def Position.shift (p q : Position) : Position :=
  ⟨p.offset + q.offset, p.line + q.line - 1,
    if q.line = 1 then p.column + q.column - 1 else q.column⟩

namespace Located

variable {bytes : List UInt8} {p : Position}

/-- Lines and columns start at 1 and grow by at most one with each byte. -/
theorem bounds (h : Located bytes p) :
    1 ≤ p.line ∧ p.line ≤ p.offset + 1 ∧ 1 ≤ p.column ∧ p.column ≤ p.offset + 1 := by
  have hbefore : (bytes.take p.offset).length = p.offset := List.length_take_of_le h.offset_le
  have hlines : (bytes.take p.offset).count lineFeed ≤ (bytes.take p.offset).length :=
    List.count_le_length
  have hcolumns := lastLine_length_le (bytes.take p.offset)
  have hline := h.line_eq
  have hcolumn := h.column_eq
  omega

/-- As long as all lines and columns can be counted, those behind `p` are counted as if
the text started there. -/
theorem shift_pass (h : Located bytes p) (hlen : bytes.length < Position.limit) {bs : List UInt8}
    (hbs : bs <+: bytes.drop p.offset) : p.shift (Position.start.pass bs) = p.pass bs := by
  have hoffset := h.offset_le
  have hbehind := hbs.length_le
  rw [List.length_drop] at hbehind
  obtain ⟨hline, hline_le, hcolumn, hcolumn_le⟩ := h.bounds
  rcases line_cases bs with hnone | ⟨front, line, rfl, hnone⟩
  · -- On the first line only the column moves, here and there.
    rw [Position.pass_of_not_mem hnone Position.one_le_limit,
      Position.pass_of_not_mem hnone (by omega)]
    simp only [Position.shift, Position.start, if_true, Position.mk.injEq]
    rw [Position.saturate_of_le (by omega), Position.saturate_of_le (by omega)]
    omega
  · have hcount : (front ++ lineFeed :: line).count lineFeed ≤
        (front ++ lineFeed :: line).length := List.count_le_length
    have hpos : 0 < (front ++ lineFeed :: line).count lineFeed :=
      List.count_pos_iff.mpr (by simp)
    rw [Position.pass_append_lineFeed hnone, Position.pass_append_lineFeed hnone,
      Position.saturate_of_le (n := p.line + _) (by omega),
      Position.saturate_of_le (n := Position.start.line + _) (by simp only [Position.start]; omega)]
    simp only [Position.shift, Position.start, Position.mk.injEq]
    exact ⟨by omega, by omega, if_neg (by omega)⟩

end Located

namespace Brace

/-- What a tokenizer without a pending token still answers with is what a new one answers
with over the text that is left, each item that much further on. -/
theorem Reached.resumed {source : Source} {t : BraceTokenizer} (h : Reached source t)
    (hlen : source.length < Position.limit) (hpending : t.pending = none) :
    ∃ text, t.cursor.remainder = .ok text ∧ ∃ items last u v,
      Tokenizer.Run (.ofSource (.ofString text) t.grammar : BraceTokenizer) items last u ∧
      Tokenizer.Run t (items.map (moveItem t.cursor.position.shift))
        (last.move t.cursor.position.shift) v := by
  obtain ⟨c, features, pending⟩ := t
  subst hpending
  have hsound := h.sound
  obtain ⟨text, hremainder, hbytes⟩ := hsound.remainder
  have hrest : c.rest = encode text.toList := by
    rw [hbytes, ← hsound.source_eq]
    rfl
  have hshift : ∀ bs, bs <+: encode text.toList →
      c.position.shift (Position.start.pass bs) = c.position.pass bs :=
    fun bs hbs => (h.placed.located hlen).shift_pass hlen (by rwa [hbytes] at hbs)
  have hstart : c.position.shift .start = c.position := hshift [] List.nil_prefix
  obtain ⟨items, hlexed, hrun⟩ :=
    exists_run features (Cursor.ofSource_onBoundary (.ofString text))
  have hfresh : Lexed features .start (encode text.toList) items := hlexed
  have hmoved := hfresh.translate (f := c.position.shift) fun bs hbs => by
    rw [hshift bs hbs, hstart]
  rw [hstart] at hmoved
  have hresumed := hmoved.run hsound.onBoundary rfl hrest
  rw [← hshift _ List.prefix_rfl] at hresumed
  exact ⟨text, hremainder, items, _, _, _, hrun, hresumed⟩

/-- A quote without a partner, and what stands behind it on two lines. -/
def quoteInside : Source := .ofString "é \"b\n="

/-- The tokenizer that has answered with the error for the quote. -/
def behindQuote : BraceTokenizer :=
  ⟨⟨quoteInside, ⟨4, 1, 5⟩⟩, .all, none⟩

/-- Behind the error the rest of its line goes on, and the next line starts anew. -/
theorem resumed_behindQuote : Reached quoteInside behindQuote ∧
    quoteInside.length < Position.limit ∧ behindQuote.pending = none ∧
    behindQuote.cursor.remainder = .ok "b\n=" ∧ ∃ v, Tokenizer.Run behindQuote
      [.ok ⟨.ofKind .string, some "b", ⟨4, 1, 5⟩⟩, .ok ⟨.ofKind .equals, some "=", ⟨6, 2, 1⟩⟩]
      (.sentinel (.ofKind .endOfInput) ⟨7, 2, 2⟩) v := by
  have hword : Reached quoteInside _ := .step .next (.start .all) trivial
  have hquote : Reached quoteInside behindQuote := hword.step .next trivial
  have hlen : quoteInside.length < Position.limit := by decide
  obtain ⟨text, hremainder, items, last, u, v, hfresh, hresumed⟩ := hquote.resumed hlen rfl
  have htext : behindQuote.cursor.remainder = .ok "b\n=" := by rfl
  obtain rfl : "b\n=" = text := Except.ok.inj (htext.symm.trans hremainder)
  have hrun : Tokenizer.Run (.ofSource (.ofString "b\n=") .all : BraceTokenizer)
      [.ok ⟨.ofKind .string, some "b", ⟨0, 1, 1⟩⟩, .ok ⟨.ofKind .equals, some "=", ⟨2, 2, 1⟩⟩]
      _ _ :=
    .item rfl (by rintro _ ⟨⟩; rfl) (.item rfl (by rintro _ ⟨⟩; rfl) (.stop rfl rfl))
  obtain ⟨rfl, rfl, -⟩ := hfresh.unique hrun
  exact ⟨hquote, hlen, rfl, htext, v, hresumed⟩

end Brace

end Lexing
