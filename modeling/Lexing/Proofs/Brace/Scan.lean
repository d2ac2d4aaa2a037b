import Lexing.Proofs.Brace.Lexeme
import Lexing.Proofs.Tokenizer

/-! Scans of the brace language and runs of its tokenizer. A scan passes over a
gap and then over a lexeme, so a run goes through the whole source. -/

namespace Lexing.Brace

/-- One scan from some place: the bytes that it consumes, those behind them, and
the item. -/
inductive Scans (features : Features) (p : Position) : List UInt8 → List UInt8 → Item Kinds → Prop
  | item {gap lexeme tail item} : Gap features.lineComments gap (lexeme ++ tail) →
      NoGap features.lineComments (lexeme ++ tail) → Lexes features (p.pass gap) lexeme tail item →
      Scans features p (gap ++ lexeme) tail item
  | stop {gap} : Gap features.lineComments gap [] →
      Scans features p gap [] (.ok (.sentinel (.ofKind .endOfInput) (p.pass gap)))

/-- The items of all bytes from some place on. -/
inductive Lexed (features : Features) : Position → List UInt8 → List (Item Kinds) → Prop
  | stop {p gap} : Gap features.lineComments gap [] → Lexed features p gap []
  | item {p gap lexeme tail item items} : Gap features.lineComments gap (lexeme ++ tail) →
      NoGap features.lineComments (lexeme ++ tail) → Lexes features (p.pass gap) lexeme tail item →
      Lexed features (p.pass (gap ++ lexeme)) tail items →
      Lexed features p (gap ++ lexeme ++ tail) (item :: items)

theorem Lexes.ne_nil {features : Features} {p : Position} {lexeme tail : List UInt8}
    {item : Item Kinds} (h : Lexes features p lexeme tail item) : lexeme ≠ [] := by
  cases h with
  | token hlexeme _ => exact hlexeme.ne_nil
  | unterminated _ _ => exact List.cons_ne_nil _ _

theorem Lexes.not_sentinel {features : Features} {p : Position} {lexeme tail : List UInt8}
    {item : Item Kinds} (h : Lexes features p lexeme tail item) :
    ∀ token, item = .ok token → token.isSentinel = false := by
  cases h with
  | token _ _ =>
    rintro token ⟨⟩
    rfl
  | unterminated _ _ =>
    rintro token ⟨⟩

theorem Lexes.onBoundary {features : Features} {p : Position} {lexeme tail : List UInt8}
    {item : Item Kinds} (h : Lexes features p lexeme tail item) {c : Cursor} (hc : c.OnBoundary)
    (hrest : c.rest = lexeme ++ tail) : (c.pass lexeme).OnBoundary := by
  cases h with
  | token hlexeme _ => exact hlexeme.onBoundary hc hrest
  | unterminated _ _ => exact (Cursor.onBoundary_of_rest_cons (b := quoteMark) rfl hrest).2

theorem Lexes.bytes_eq {features : Features} {p : Position} {lexeme tail : List UInt8}
    {token : Token Kinds} (h : Lexes features p lexeme tail (.ok token)) :
    token.bytes = lexeme := by
  cases h with
  | token _ hbytes => exact hbytes

theorem Lexes.cut {features : Features} {c : Cursor} {lexeme tail : List UInt8}
    {token : Token Kinds} (h : Lexes features c.position lexeme tail (.ok token))
    (hc : c.OnBoundary) (hrest : c.rest = lexeme ++ tail) :
    c.source.cut? token.position.offset token.stop = some token.data := by
  obtain ⟨text, hcut, htext⟩ := hc.slice (h.onBoundary hc hrest) hrest
  have hbytes := h.bytes_eq
  have hdata : text = token.data := by
    have hchars : text.toList = token.data.toList := encode_injective (htext.trans hbytes.symm)
    rw [← String.ofList_toList (s := text), hchars, String.ofList_toList]
  have hplace : token.position = c.position := by
    cases h
    rfl
  rw [Token.stop, hbytes, hplace, ← hdata]
  exact hcut

/-- Where no gap can be skipped, the scan answers with the item at the cursor. -/
theorem emitLexeme_eq (features : Features) {c : Cursor} (hc : c.OnBoundary) (hne : c.rest ≠ [])
    (hgap : NoGap features.lineComments c.rest) : ∃ lexeme tail item,
      c.rest = lexeme ++ tail ∧ Lexes features c.position lexeme tail item ∧
      emitLexeme features c = ⟨.ok item, features, c.pass lexeme⟩ := by
  rcases exists_lexeme features hne hgap with
    ⟨kind, lexeme, tail, hrest, hlexeme⟩ | ⟨tail, hrest, hquoted, htail⟩
  · obtain ⟨text, -, hbytes, hemit⟩ := hlexeme.emitLexeme_eq hc hrest
    exact ⟨lexeme, tail, _, hrest, .token hlexeme hbytes, hemit⟩
  · exact ⟨[quoteMark], tail, _, hrest, .unterminated hquoted htail,
      emitLexeme_unterminated hquoted htail hrest⟩

/-- Between characters a scan never fails, and it ends between characters. -/
theorem emit_eq (features : Features) {c : Cursor} (hc : c.OnBoundary) : ∃ bs tail item,
    c.rest = bs ++ tail ∧ Scans features c.position bs tail item ∧ (c.pass bs).OnBoundary ∧
      emit features c = ⟨.ok item, features, c.pass bs⟩ := by
  obtain ⟨gap, tail, hrest, hskip, hbound, hgap, hnone⟩ := skipGap_eq features hc
  have htail := Cursor.rest_pass hrest
  unfold emit
  rw [hskip]
  dsimp only
  by_cases hempty : tail = []
  · subst hempty
    rw [if_pos (Cursor.atEnd_iff.mpr htail)]
    exact ⟨gap, [], _, hrest, .stop hgap, hbound, rfl⟩
  · rw [← htail] at hempty hgap hnone
    obtain ⟨lexeme, tail', item, heq, hlexes, hemit⟩ := emitLexeme_eq features hbound hempty hnone
    have hend := hlexes.onBoundary hbound heq
    rw [if_neg (fun h => hempty (Cursor.atEnd_iff.mp h)), hemit, ← Cursor.pass_append]
    rw [← Cursor.pass_append] at hend
    rw [heq] at hgap hnone
    refine ⟨gap ++ lexeme, tail', item, ?_, .item hgap hnone hlexes, hend, rfl⟩
    rw [hrest, ← htail, heq, List.append_assoc]

theorem next_eq (features : Features) {c : Cursor} (hc : c.OnBoundary) : ∃ bs tail item,
    c.rest = bs ++ tail ∧ Scans features c.position bs tail item ∧ (c.pass bs).OnBoundary ∧
      (⟨c, features, none⟩ : BraceTokenizer).next = (.ok item, ⟨c.pass bs, features, none⟩) := by
  obtain ⟨bs, tail, item, hrest, hscan, hend, hemit⟩ := emit_eq features hc
  exact ⟨bs, tail, item, hrest, hscan, hend, Tokenizer.next_of_emit hemit⟩

/-- A tokenizer without a pending token goes through all that is left. -/
theorem exists_run (features : Features) {c : Cursor} (hc : c.OnBoundary) : ∃ items,
    Lexed features c.position c.rest items ∧
      Tokenizer.Run ⟨c, features, none⟩ items
        (.sentinel (.ofKind .endOfInput) (c.position.pass c.rest))
        ⟨c.pass c.rest, features, none⟩ := by
  -- Each item has a lexeme, so fewer bytes are left behind it.
  induction hn : c.rest.length using Nat.strongRecOn generalizing c with
  | ind n ih =>
    obtain ⟨bs, tail, item, hrest, hscan, hend, hnext⟩ := next_eq features hc
    cases hscan with
    | stop hgap =>
      rw [List.append_nil] at hrest
      rw [hrest]
      exact ⟨[], .stop hgap, .stop hnext rfl⟩
    | @item gap lexeme _ _ hgap hnone hlexes =>
      have htail := Cursor.rest_pass hrest
      have hlt : tail.length < n := by
        have hpos := List.length_pos_iff.mpr hlexes.ne_nil
        rw [← hn, hrest]
        simp only [List.length_append]
        omega
      obtain ⟨items, hlexed, hrun⟩ := ih tail.length hlt hend (by rw [htail])
      rw [htail] at hlexed hrun
      refine ⟨item :: items, ?_, ?_⟩
      · rw [hrest]
        exact .item hgap hnone hlexes hlexed
      · rw [hrest, Position.pass_append, Cursor.pass_append]
        exact .item hnext hlexes.not_sentinel hrun

end Lexing.Brace
