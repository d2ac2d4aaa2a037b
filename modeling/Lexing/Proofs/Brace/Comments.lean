import Mathlib.Data.List.Forall2
import Lexing.Proofs.Brace.Quotes

/-! Comments as whitespace. A source with a space in place of each byte of its
comments has the same items without comments as the source has with them, and all
of them are at the same places. -/

namespace Lexing.Brace

def space : UInt8 := 32

/-- Bytes with a space in place of those that the mask hides. -/
def blankOut (bs : List UInt8) (mask : List Bool) : List UInt8 :=
  List.zipWith (fun b hidden => if hidden then space else b) bs mask

/-- Some of the bytes, but no line feeds, are replaced by spaces. -/
def Blanked (bs bs' : List UInt8) : Prop :=
  List.Forall₂ (fun b b' => b' = b ∨ b ≠ lineFeed ∧ b' = space) bs bs'

namespace Blanked

variable {bs bs' cs cs' : List UInt8}

theorem refl (bs : List UInt8) : Blanked bs bs := List.forall₂_same.mpr fun _ _ => .inl rfl

theorem append (h : Blanked bs bs') (h' : Blanked cs cs') : Blanked (bs ++ cs) (bs' ++ cs') :=
  List.rel_append h h'

theorem pass_eq (h : Blanked bs bs') (p : Position) : p.pass bs' = p.pass bs := by
  induction h generalizing p with
  | nil => rfl
  | cons hb _ ih =>
    rw [Position.pass_cons, Position.pass_cons, ih]
    rcases hb with rfl | ⟨hne, rfl⟩
    · rfl
    · rw [Position.step_of_ne hne, Position.step_of_ne (by decide)]

theorem head_eq (h : Blanked bs bs') : ∀ b ∈ bs'.head?, b ∈ bs.head? ∨ b = space := by
  cases h with
  | nil => simp
  | cons hb _ =>
    rintro b ⟨⟩
    rcases hb with rfl | ⟨-, rfl⟩
    · exact .inl rfl
    · exact .inr rfl

theorem quoteMark_not_mem (h : Blanked bs bs') (hnone : quoteMark ∉ bs) : quoteMark ∉ bs' := by
  induction h with
  | nil => exact hnone
  | cons hb _ ih =>
    simp only [List.mem_cons, not_or] at hnone ⊢
    refine ⟨?_, ih hnone.2⟩
    rcases hb with rfl | ⟨-, rfl⟩
    · exact hnone.1
    · decide

end Blanked

theorem blankOut_append {bs cs : List UInt8} {mask mask' : List Bool}
    (h : bs.length = mask.length) :
    blankOut (bs ++ cs) (mask ++ mask') = blankOut bs mask ++ blankOut cs mask' :=
  List.zipWith_append h

theorem blankOut_replicate_false (bs : List UInt8) :
    blankOut bs (List.replicate bs.length false) = bs := by
  induction bs with
  | nil => rfl
  | cons b bs ih =>
    rw [List.length_cons, List.replicate_succ]
    exact congrArg (b :: ·) ih

theorem blankOut_replicate_true (bs : List UInt8) :
    blankOut bs (List.replicate bs.length true) = List.replicate bs.length space := by
  induction bs with
  | nil => rfl
  | cons b bs ih =>
    rw [List.length_cons, List.replicate_succ, List.replicate_succ]
    exact congrArg (space :: ·) ih

section Gap

variable {comments : Bool} {gap rest : List UInt8}

/-- A line feed is in no comment. -/
theorem blanked_gapMask (inside : Bool) (gap : List UInt8) :
    Blanked gap (blankOut gap (gapMask inside gap)) := by
  induction gap generalizing inside with
  | nil => exact .nil
  | cons b gap ih =>
    refine .cons ?_ (ih _)
    by_cases hfeed : b = lineFeed
    · exact .inl (by simp [hfeed])
    · dsimp only
      split
      · exact .inr ⟨hfeed, rfl⟩
      · exact .inl rfl

/-- Without its comments a gap is whitespace. -/
theorem Gap.blank_of_mem_blankOut (h : Gap comments gap rest) :
    ∀ b ∈ blankOut gap (gapMask false gap), b ∈ blanks := by
  induction h with
  | nil =>
    intro b hb
    contradiction
  | @blank b gap rest hblank _ ih =>
    rw [gapMask_blank hblank]
    intro a ha
    rcases List.mem_cons.mp ha with rfl | ha
    · exact hblank
    · exact ih a ha
  | @comment body gap rest _ hbody hfeed _ ih =>
    have hlen : (slash :: slash :: body).length =
        (List.replicate (slash :: slash :: body).length true).length := List.length_replicate.symm
    rw [← List.cons_append, ← List.cons_append, gapMask_comment hbody hfeed,
      blankOut_append hlen, blankOut_replicate_true]
    intro b hb
    rcases List.mem_append.mp hb with hb | hb
    · rw [List.eq_of_mem_replicate hb]
      decide
    · exact ih b hb

theorem Gap.blankOut (h : Gap comments gap rest) (rest' : List UInt8) :
    Gap false (blankOut gap (gapMask false gap)) rest' := by
  have hnil : Gap false [] rest' := .nil
  have hgap := hnil.blanks_append h.blank_of_mem_blankOut
  rwa [List.append_nil] at hgap

end Gap

/-- Whitespace is a text. -/
theorem exists_encode_of_blank {bs : List UInt8} (h : ∀ b ∈ bs, b ∈ blanks) :
    ∃ cs, encode cs = bs := by
  induction bs with
  | nil => exact ⟨[], rfl⟩
  | cons b bs ih =>
    obtain ⟨cs, rfl⟩ := ih fun a ha => h a (List.mem_cons_of_mem _ ha)
    rcases blank_cases (h b List.mem_cons_self) with rfl | rfl | rfl | rfl
    · exact ⟨' ' :: cs, rfl⟩
    · exact ⟨'\t' :: cs, rfl⟩
    · exact ⟨'\n' :: cs, rfl⟩
    · exact ⟨'\r' :: cs, rfl⟩

section Lexes

variable {features : Features} {p : Position} {lexeme tail tail' : List UInt8} {item : Item Kinds}

def Features.uncommented (features : Features) : Features := { features with lineComments := false }

theorem Lexes.exists_encode (h : Lexes features p lexeme tail item) : ∃ cs, encode cs = lexeme := by
  cases h with
  | token _ hbytes => exact ⟨_, hbytes⟩
  | unterminated _ _ => exact ⟨['"'], rfl⟩

/-- What stands behind an item is not seen, but for the end of a word and for quotes. -/
theorem Lexes.uncommented (h : Lexes features p lexeme tail item) (htail : Blanked tail tail') :
    Lexes features.uncommented p lexeme tail' item := by
  have hquotes : features.uncommented.quotedStrings = features.quotedStrings := rfl
  cases h with
  | token hlexeme hbytes =>
    refine .token (hlexeme.of_tail hquotes fun hstop b hb => ?_) hbytes
    rcases htail.head_eq b hb with hb | rfl
    · exact hstop b hb
    · exact .inr (.inl (by decide))
  | unterminated hquoted hnone => exact .unterminated hquoted (htail.quoteMark_not_mem hnone)

theorem NoGap.uncommented {comments : Bool} (h : NoGap comments (lexeme ++ tail))
    (hne : lexeme ≠ []) (tail' : List UInt8) : NoGap false (lexeme ++ tail') := by
  obtain ⟨b, lexeme, rfl⟩ := List.exists_cons_of_ne_nil hne
  exact ⟨h.not_blank, fun hcomments => by contradiction⟩

end Lexes

/-- Without the bytes of the comments the items are derived as before, with no
comment between them, and what is left of the source is a text. -/
theorem Lexed.uncommented {features : Features} {p : Position} {bs : List UInt8}
    {items : List (Item Kinds)} (h : Lexed features p bs items) :
    Blanked bs (Brace.blankOut bs (commentMask p.offset bs items)) ∧
      (∃ cs, encode cs = Brace.blankOut bs (commentMask p.offset bs items)) ∧
      Lexed features.uncommented p (Brace.blankOut bs (commentMask p.offset bs items)) items := by
  induction h with
  | stop hgap =>
    exact ⟨blanked_gapMask false _, exists_encode_of_blank hgap.blank_of_mem_blankOut,
      .stop (hgap.blankOut [])⟩
  | @item p gap lexeme tail item items hgap hnone hlexes _ ih =>
    obtain ⟨htail, ⟨rest, hrest⟩, hlexed⟩ := ih
    obtain ⟨front, hfront⟩ := exists_encode_of_blank hgap.blank_of_mem_blankOut
    obtain ⟨middle, hmiddle⟩ := hlexes.exists_encode
    have hpass := (blanked_gapMask false gap).pass_eq p
    -- Only the gap is hidden in front of the tail, and the tail by its own mask.
    have hmask : Brace.blankOut (gap ++ lexeme ++ tail)
        (commentMask p.offset (gap ++ lexeme ++ tail) (item :: items)) =
        Brace.blankOut gap (gapMask false gap) ++ lexeme ++
          Brace.blankOut tail (commentMask (p.pass (gap ++ lexeme)).offset tail items) := by
      rw [commentMask_cons hlexes, blankOut_append (by simp [length_gapMask]),
        blankOut_append (length_gapMask false gap).symm, blankOut_replicate_false]
    rw [hmask]
    refine ⟨?_, ⟨front ++ middle ++ rest, ?_⟩, ?_⟩
    · exact ((blanked_gapMask false gap).append (.refl lexeme)).append htail
    · rw [encode_append, encode_append, hfront, hmiddle, hrest]
    · refine .item (hgap.blankOut _) (hnone.uncommented hlexes.ne_nil _) ?_ ?_
      · rw [hpass]
        exact hlexes.uncommented htail
      · rw [Position.pass_append, hpass, ← Position.pass_append]
        exact hlexed

/-- A source with a space in place of each byte of its comments is a source, and the
run over it without comments has the items of the run with them, and the same end. -/
theorem run_blankOut (source : Source) (quotedStrings : Bool) : ∃ items last u,
    Tokenizer.Run (.ofSource source ⟨true, quotedStrings⟩ : BraceTokenizer) items last u ∧
      ∃ (blanked : Source) (v : BraceTokenizer),
        blanked.bytes = blankOut source.bytes (commentMask 0 source.bytes items) ∧
        Tokenizer.Run (.ofSource blanked ⟨false, quotedStrings⟩) items last v := by
  obtain ⟨items, hlexed, hrun⟩ :=
    exists_run ⟨true, quotedStrings⟩ (Cursor.ofSource_onBoundary source)
  obtain ⟨hblanked, ⟨cs, hcs⟩, huncommented⟩ := Lexed.uncommented hlexed
  have hend := huncommented.run (Cursor.ofSource_onBoundary (.ofChars cs)) rfl hcs
  rw [hblanked.pass_eq] at hend
  exact ⟨items, _, _, hrun, .ofChars cs, _, hcs, hend⟩

/-- The slashes of a string stay, and a comment keeps its number of bytes. -/
example : blankOut (encode "\"//\"//é\n".toList) (commentMask 0 (encode "\"//\"//é\n".toList)
    [.ok ⟨.ofKind .quoted, some "\"//\"", .start⟩]) = encode "\"//\"    \n".toList := rfl

end Lexing.Brace
