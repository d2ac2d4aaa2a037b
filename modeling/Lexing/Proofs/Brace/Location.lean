import Lexing.Proofs.Brace.Safety
import Lexing.Proofs.Location

/-! Where the items of the brace language are. A scan only moves its cursor
ahead, and places its item where the cursor was on the way. -/

namespace Lexing.Brace

open Cursor (Ahead Moved Placed)

def itemPosition : Item Kinds → Position
  | .ok token => token.position
  | .error e => e.position

section Emit

variable {features : Features} {c c' : Cursor}

theorem skipGapWithin_ahead {n : Nat} (h : skipGapWithin features n c = .ok c') : Ahead c c' := by
  induction n generalizing c with
  | zero =>
    cases h
    exact .refl _
  | succ n ih =>
    have hblank : Ahead c c.skipWhitespace := c.discardWhile_ahead _
    unfold skipGapWithin at h
    dsimp only at h
    split at h
    · split at h
      · exact (hblank.trans (Cursor.discardWhile_ahead _ _)).trans (ih h)
      · cases h
        exact hblank
      · contradiction
    · cases h
      exact hblank

theorem token_position {tag : Kinds} {start : Position} {stop : Nat} {token : Token Kinds}
    (h : c.token tag start stop = .ok token) : token.position = start := by
  unfold Cursor.token Token.ofText at h
  cases hslice : c.slice start.offset stop with
  | error misuse => simp [hslice, bind, Except.bind] at h
  | ok text =>
    simp only [hslice, bind, Except.bind] at h
    split at h
    · contradiction
    · cases h
      rfl

theorem emitToken_position {tag : Kinds} {start : Position} {stop : Nat} {item : Item Kinds}
    (h : (emitToken features c tag start stop).result = .ok item) : itemPosition item = start := by
  unfold emitToken at h
  cases htoken : c.token tag start stop with
  | error misuse => simp [htoken, Except.map] at h
  | ok token =>
    simp only [htoken, Except.map] at h
    cases h
    exact token_position htoken

theorem emitLexeme_location (features : Features) (c : Cursor) :
    Ahead c (emitLexeme features c).cursor ∧
      ∀ item, (emitLexeme features c).result = .ok item → itemPosition item = c.position := by
  unfold emitLexeme
  dsimp only
  split
  · exact ⟨.refl c, fun item h => by contradiction⟩
  · next first c₁ hnext =>
    have hfirst := Cursor.next_ahead hnext
    split
    · exact ⟨hfirst, fun item h => emitToken_position h⟩
    · split
      · split
        · next hread =>
          have hahead := hfirst.trans (Cursor.readQuoted_ahead hread)
          exact ⟨hahead, fun item h => emitToken_position h⟩
        · refine ⟨hfirst, ?_⟩
          rintro item ⟨⟩
          rfl
        · exact ⟨hfirst, fun item h => by contradiction⟩
      · split
        · next hread =>
          have hahead := hfirst.trans (Cursor.classify_ahead hread)
          exact ⟨hahead, fun item h => emitToken_position h⟩
        · refine ⟨hfirst, ?_⟩
          rintro item ⟨⟩
          rfl

theorem emit_location (features : Features) (c : Cursor) :
    Ahead c (emit features c).cursor ∧
      ∀ item, (emit features c).result = .ok item →
        ∃ c', Ahead c c' ∧ itemPosition item = c'.position := by
  unfold emit
  split
  · exact ⟨.refl c, fun item h => by contradiction⟩
  · next c₁ hskip =>
    have hgap : Ahead c c₁ := skipGapWithin_ahead hskip
    split
    · refine ⟨hgap, ?_⟩
      rintro item ⟨⟩
      exact ⟨c₁, hgap, rfl⟩
    · obtain ⟨hahead, hplace⟩ := emitLexeme_location features c₁
      exact ⟨hgap.trans hahead, fun item h => ⟨c₁, hgap, hplace item h⟩⟩

end Emit

section Reached

variable {P : Cursor → Prop} (hemit : ∀ features c, P c → P (emit features c).cursor)

include hemit

theorem next_cursor (t : BraceTokenizer) (h : P t.cursor) : P t.next.2.cursor := by
  obtain ⟨c, features, pending⟩ := t
  cases pending with
  | some token => exact h
  | none => exact hemit features c h

theorem peek_cursor (t : BraceTokenizer) (h : P t.cursor) : P t.peek.2.cursor := by
  have hnext := next_cursor hemit t h
  rcases t.peek_cases with ⟨token, t', heq, hpeek⟩ | ⟨-, hpeek⟩
  · rw [heq] at hnext
    rw [hpeek]
    exact hnext
  · rw [hpeek]
    exact hnext

theorem nextItem?_cursor (t : BraceTokenizer) (h : P t.cursor) : P t.nextItem?.2.cursor := by
  have hnext := next_cursor hemit t h
  unfold Tokenizer.nextItem?
  split <;> next heq => rwa [heq] at hnext

theorem tokensWithin_cursor (n : Nat) (t : BraceTokenizer) (h : P t.cursor) :
    P (Tokenizer.tokensWithin n t).2.cursor := by
  induction n generalizing t with
  | zero => exact h
  | succ n ih =>
    have hnext := next_cursor hemit t h
    unfold Tokenizer.tokensWithin
    split
    · next heq =>
      rw [heq] at hnext
      split
      · exact hnext
      · exact ih _ hnext
    · next heq => rwa [heq] at hnext
    · next heq => rwa [heq] at hnext

theorem expect_cursor (t : BraceTokenizer) (expected : Kinds) (h : P t.cursor) :
    P (expect t expected).2.cursor := by
  have hnext := next_cursor hemit t h
  unfold expect
  split
  · next heq =>
    rw [heq] at hnext
    split
    · exact hnext
    · split
      · next hpush =>
        dsimp only
        rw [Tokenizer.cursor_of_push hpush]
        exact hnext
      · exact hnext
  · next heq => rwa [heq] at hnext
  · next heq => rwa [heq] at hnext

/-- What scans and starting again keep of a cursor, every operation keeps. -/
theorem Operation.run_cursor (hreset : ∀ c, P c → P c.reset) (t : BraceTokenizer) (h : P t.cursor)
    (op : Operation) : P (op.run t).2.cursor := by
  cases op with
  | next => exact next_cursor hemit t h
  | peek => exact peek_cursor hemit t h
  | nextItem => exact nextItem?_cursor hemit t h
  | tokens => exact tokensWithin_cursor hemit _ t h
  | expect expected => exact expect_cursor hemit t expected h
  | remainder => exact h
  | reset => exact hreset _ h
  | replace features => exact h
  | push token =>
    dsimp only [run, runOver]
    split
    · next hpush =>
      dsimp only
      rw [Tokenizer.cursor_of_push hpush]
      exact h
    · exact h

end Reached

theorem Reached.placed {source : Source} {t : BraceTokenizer} (h : Reached source t) :
    Placed source t.cursor := by
  induction h with
  | start features => exact .start source
  | step op _ _ ih =>
    exact op.run_cursor (fun features c hc => hc.ahead (emit_location features c).1)
      (fun c hc => hc.reset) _ ih

/-- The item of a scan has the line and the column of its offset. -/
theorem emit_located {source : Source} {features : Features} {c : Cursor} {item : Item Kinds}
    (hc : Placed source c) (hlen : source.length < Position.limit)
    (h : (emit features c).result = .ok item) : Located source.bytes (itemPosition item) := by
  obtain ⟨c', hahead, hplace⟩ := (emit_location features c).2 item h
  rw [hplace]
  exact (hc.ahead hahead).located hlen

/-- In every source that is short enough for its lines and columns to be counted,
a cursor is where its offset is, however it came there, and so are the items that
are scanned from it or by a tokenizer. -/
theorem moved_located {source : Source} (hlen : source.length < Position.limit) :
    (∀ c earlier, Moved source c earlier → Located source.bytes c.position ∧
      ∀ features item, (emit features c).result = .ok item →
        Located source.bytes (itemPosition item)) ∧
    ∀ t : BraceTokenizer, Reached source t → Located source.bytes t.cursor.position ∧
      ∀ item, t.scan.1 = .ok item → Located source.bytes (itemPosition item) := by
  constructor
  · intro c earlier hmoved
    have hplaced := hmoved.placed.1
    exact ⟨hplaced.located hlen, fun features item h => emit_located hplaced hlen h⟩
  · intro t hreached
    have hplaced := hreached.placed
    refine ⟨hplaced.located hlen, ?_⟩
    intro item hscan
    exact emit_located hplaced hlen (Tokenizer.scan_eq_ok.mp hscan)

/-- A character of two bytes, and a quoted string on the next line. -/
def quotedBelow : Source := .ofString "é\n \"b\""

/-- The string is read from behind its first quote and the cursor set back, so
that the tokenizer comes upon a place that the cursor had left. -/
theorem moved_located_quotedBelow : quotedBelow.length < Position.limit ∧
    ∃ c back earlier, Moved quotedBelow c earlier ∧ Moved quotedBelow back (c :: earlier) ∧
      c.position = ⟨7, 2, 5⟩ ∧ Located quotedBelow.bytes c.position ∧
      back.position = ⟨2, 1, 3⟩ ∧ Located quotedBelow.bytes back.position := by
  have hlen : quotedBelow.length < Position.limit := by decide
  have hstart : Moved quotedBelow _ _ := .start
  have hline := hstart.step (.discardUntil (.ofList [lineFeed])) trivial
  have hnext := hline.step .next rfl
  have hquoted := hnext.step (.readQuoted 4 quoteMark) rfl
  have hback := hquoted.step (.restore _) (.tail _ (.head _))
  exact ⟨hlen, _, _, _, hquoted, hback, by decide, ((moved_located hlen).1 _ _ hquoted).1,
    by decide, ((moved_located hlen).1 _ _ hback).1⟩

end Lexing.Brace
