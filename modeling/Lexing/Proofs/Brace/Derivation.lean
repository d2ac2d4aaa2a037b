import Lexing.Proofs.Brace.Scan

/-! Derivations of items. The gap in front of a lexeme is the only one that can be
skipped there, so every derivation of items from some bytes is the run over them. -/

namespace Lexing.Brace

variable {features : Features} {p : Position}

theorem noGap_nil (comments : Bool) : NoGap comments [] :=
  ⟨fun b hb => by contradiction, fun _ hslashes => by simp at hslashes⟩

theorem Gap.unique {comments : Bool} {gap rest gap' rest' : List UInt8} (h : Gap comments gap rest)
    (h' : Gap comments gap' rest') (hrest : NoGap comments rest) (hrest' : NoGap comments rest')
    (heq : gap ++ rest = gap' ++ rest') : gap = gap' ∧ rest = rest' := by
  induction h generalizing gap' with
  | nil =>
    cases h' with
    | nil => exact ⟨rfl, heq⟩
    | blank hblank _ =>
      subst heq
      exact absurd hblank (hrest.not_blank _ rfl)
    | comment hcomments _ _ _ =>
      subst heq
      exact absurd ⟨_, rfl⟩ (hrest.not_comment hcomments)
  | @blank b gap rest hblank _ ih =>
    cases h' with
    | nil =>
      subst heq
      exact absurd hblank (hrest'.not_blank _ rfl)
    | blank hblank' hgap' =>
      obtain ⟨rfl, htail⟩ := List.cons.inj heq
      obtain ⟨rfl, rfl⟩ := ih hgap' hrest htail
      exact ⟨rfl, rfl⟩
    | comment _ _ _ _ =>
      obtain ⟨rfl, -⟩ := List.cons.inj heq
      exact absurd hblank (by decide)
  | @comment body gap rest hcomments hbody hfeed _ ih =>
    cases h' with
    | nil =>
      subst heq
      exact absurd ⟨_, rfl⟩ (hrest'.not_comment hcomments)
    | blank hblank' _ =>
      obtain ⟨rfl, -⟩ := List.cons.inj heq
      exact absurd hblank' (by decide)
    | @comment body' gap' _ _ hbody' hfeed' hgap' =>
      -- Both comments end at the first line feed, so they are the same.
      have hline : body ++ (gap ++ rest) = body' ++ (gap' ++ rest') := by
        simpa using heq
      obtain ⟨rfl, htail⟩ :=
        (Stretch.of_not_mem hbody hfeed).unique (Stretch.of_not_mem hbody' hfeed') hline
      obtain ⟨rfl, rfl⟩ := ih hgap' hrest htail
      exact ⟨rfl, rfl⟩

section Cursor

variable {c : Cursor}

theorem skipGap_of_gap {gap rest : List UInt8} (hc : c.OnBoundary) (hrest : c.rest = gap ++ rest)
    (hgap : Gap features.lineComments gap rest) (hnone : NoGap features.lineComments rest) :
    skipGap features c = .ok (c.pass gap) := by
  obtain ⟨gap', rest', hrest', hskip, -, hgap', hnone'⟩ := skipGap_eq features hc
  obtain ⟨rfl, -⟩ := hgap.unique hgap' hnone hnone' (hrest.symm.trans hrest')
  exact hskip

theorem Lexes.emitLexeme_eq {lexeme tail : List UInt8} {item : Item Kinds}
    (h : Lexes features c.position lexeme tail item) (hc : c.OnBoundary)
    (hrest : c.rest = lexeme ++ tail) :
    emitLexeme features c = ⟨.ok item, features, c.pass lexeme⟩ := by
  cases h with
  | @token kind _ _ text hlexeme hbytes =>
    obtain ⟨text', -, hbytes', hemit⟩ := hlexeme.emitLexeme_eq hc hrest
    have hchars : text'.toList = text.toList := encode_injective (hbytes'.trans hbytes.symm)
    rw [hemit, String.toList_injective hchars]
  | unterminated hquoted htail => exact emitLexeme_unterminated hquoted htail hrest

theorem emit_of_gap {gap : List UInt8} (hc : c.OnBoundary) (hrest : c.rest = gap)
    (hgap : Gap features.lineComments gap []) : emit features c =
      ⟨.ok (.ok (.sentinel (.ofKind .endOfInput) (c.position.pass gap))), features,
        c.pass gap⟩ := by
  rw [← List.append_nil gap] at hrest
  have hskip := skipGap_of_gap hc hrest hgap (noGap_nil _)
  unfold emit
  rw [hskip]
  dsimp only
  rw [if_pos (Cursor.atEnd_iff.mpr (Cursor.rest_pass hrest))]
  rfl

theorem emit_of_lexes {gap lexeme tail : List UInt8} {item : Item Kinds} (hc : c.OnBoundary)
    (hrest : c.rest = gap ++ (lexeme ++ tail))
    (hgap : Gap features.lineComments gap (lexeme ++ tail))
    (hnone : NoGap features.lineComments (lexeme ++ tail))
    (hlexes : Lexes features (c.position.pass gap) lexeme tail item) :
    emit features c = ⟨.ok item, features, c.pass (gap ++ lexeme)⟩ := by
  have hskip := skipGap_of_gap hc hrest hgap hnone
  have hbehind := Cursor.rest_pass hrest
  have hmore : ¬ (c.pass gap).atEnd = true := by
    intro hend
    rw [Cursor.atEnd_iff.mp hend] at hbehind
    exact hlexes.ne_nil (List.append_eq_nil_iff.mp hbehind.symm).1
  unfold emit
  rw [hskip]
  dsimp only
  rw [if_neg hmore, Cursor.pass_append]
  exact hlexes.emitLexeme_eq (hgap.onBoundary hc hrest) hbehind

end Cursor

/-- A derivation of the items from a place between characters is the run from it. -/
theorem Lexed.run {bs : List UInt8} {items : List (Item Kinds)} (h : Lexed features p bs items)
    {c : Cursor} (hc : c.OnBoundary) (hp : c.position = p) (hrest : c.rest = bs) :
    Tokenizer.Run (⟨c, features, none⟩ : BraceTokenizer) items
      (.sentinel (.ofKind .endOfInput) (p.pass bs)) ⟨c.pass bs, features, none⟩ := by
  induction h generalizing c with
  | stop hgap =>
    subst hp
    exact .stop (Tokenizer.next_of_emit (emit_of_gap hc hrest hgap)) rfl
  | @item p gap lexeme tail item items hgap hnone hlexes _ ih =>
    subst hp
    rw [List.append_assoc] at hrest
    have hnext : (⟨c, features, none⟩ : BraceTokenizer).next =
        (.ok item, ⟨c.pass (gap ++ lexeme), features, none⟩) :=
      Tokenizer.next_of_emit (emit_of_lexes hc hrest hgap hnone hlexes)
    have hend := hlexes.onBoundary (hgap.onBoundary hc hrest) (Cursor.rest_pass hrest)
    rw [← Cursor.pass_append] at hend
    have hrun := ih hend rfl (Cursor.rest_pass (by rw [hrest, List.append_assoc]))
    rw [← Cursor.pass_append, ← Position.pass_append] at hrun
    exact .item hnext hlexes.not_sentinel hrun

theorem Lexed.length_le {bs : List UInt8} {items : List (Item Kinds)}
    (h : Lexed features p bs items) : items.length ≤ bs.length := by
  induction h with
  | stop _ => exact Nat.zero_le _
  | item _ _ hlexes _ ih =>
    have hpos := List.length_pos_iff.mpr hlexes.ne_nil
    simp only [List.length_append, List.length_cons]
    omega

/-- An item of a derivation, with the bytes before it and the items behind it. -/
theorem Lexed.split {bs : List UInt8} {front back : List (Item Kinds)} {item : Item Kinds}
    (h : Lexed features p bs (front ++ item :: back)) : ∃ before lexeme tail,
      bs = before ++ (lexeme ++ tail) ∧ Lexes features (p.pass before) lexeme tail item ∧
        Lexed features (p.pass (before ++ lexeme)) tail back := by
  induction front generalizing p bs with
  | nil =>
    cases h with
    | @item _ gap lexeme tail _ _ _ _ hlexes hback =>
      exact ⟨gap, lexeme, tail, List.append_assoc _ _ _, hlexes, hback⟩
  | cons first front ih =>
    cases h with
    | @item _ gap lexeme tail _ _ _ _ _ hrest =>
      obtain ⟨before, lexeme', tail', rfl, hlexes, hback⟩ := ih hrest
      refine ⟨gap ++ lexeme ++ before, lexeme', tail', by simp, ?_, ?_⟩
      · rw [Position.pass_append]
        exact hlexes
      · rw [List.append_assoc _ before, Position.pass_append]
        exact hback

/-- Bytes that only make gaps longer leave the items behind them as they are. -/
theorem Lexed.behind_gap {gap bs : List UInt8} {items : List (Item Kinds)}
    (hgap : ∀ gap' rest, Gap features.lineComments gap' rest →
      Gap features.lineComments (gap ++ gap') rest)
    (h : Lexed features (p.pass gap) bs items) : Lexed features p (gap ++ bs) items := by
  cases h with
  | stop hgap' => exact .stop (hgap _ _ hgap')
  | @item _ gap' lexeme tail item items hgap' hnone hlexes hrest =>
    rw [← Position.pass_append] at hlexes hrest
    rw [← List.append_assoc] at hrest
    have hlexed := Lexed.item (hgap _ _ hgap') hnone hlexes hrest
    rwa [List.append_assoc gap, List.append_assoc gap] at hlexed

end Lexing.Brace
