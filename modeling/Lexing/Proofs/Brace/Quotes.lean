import Lexing.Proofs.Brace.Derivation
import Lexing.Proofs.Brace.Partition

/-! Quotes and errors. Outside comments every quote is one of the two around a
quoted string, but for the last one where their number is odd, and nothing else
in a source is wrong. -/

namespace Lexing.Brace

def isQuoted : Item Kinds → Bool
  | .ok token => decide (token.tag = .ofKind .quoted)
  | .error _ => false

/-- Which bytes of a gap stand in a comment: all from a slash up to the end of the
line. The gap may start `inside` one. -/
def gapMask (inside : Bool) : List UInt8 → List Bool
  | [] => []
  | b :: bs =>
      let here := decide (b ≠ lineFeed) && (inside || decide (b = slash))
      here :: gapMask here bs

/-- Which bytes from some offset on stand in a comment, when these items were found
among them: the gaps are between the items, and no part of an item is a comment. -/
def commentMask (o : Nat) (bs : List UInt8) : List (Item Kinds) → List Bool
  | [] => gapMask false bs
  | item :: items =>
      let gap := itemOffset item - o
      let n := (itemBytes item).length
      gapMask false (bs.take gap) ++ List.replicate n false
        ++ commentMask (o + gap + n) (bs.drop (gap + n)) items

/-- The number of quotes outside comments. -/
def quotesOutside (o : Nat) (bs : List UInt8) (items : List (Item Kinds)) : Nat :=
  (bs.zip (commentMask o bs items)).count (quoteMark, false)

/-- What the items of a source tell about its quotes. -/
structure QuoteBalance (features : Features) (source : Source) (items : List (Item Kinds)) :
    Prop where
  errors_le_one : items.countP (!·.isOk) ≤ 1
  error_eq : ∀ e, .error e ∈ items → ∃ front back, source.bytes = front ++ quoteMark :: back ∧
    quoteMark ∉ back ∧ e = ⟨.unterminated quoteMark, Position.start.pass front⟩
  none_behind : ∀ front e back, items = front ++ .error e :: back →
    ∀ item ∈ back, isQuoted item = false
  no_error : features.quotedStrings = false → ∀ item ∈ items, item.isOk = true
  balance : features.quotedStrings = true →
    quotesOutside 0 source.bytes items = 2 * items.countP isQuoted + items.countP (!·.isOk)
  even_iff : features.quotedStrings = true → features.lineComments = false →
    ((∀ item ∈ items, item.isOk = true) ↔ source.bytes.count quoteMark % 2 = 0)

section Gap

theorem length_gapMask (inside : Bool) (bs : List UInt8) :
    (gapMask inside bs).length = bs.length := by
  induction bs generalizing inside with
  | nil => rfl
  | cons b bs ih => simp [gapMask, ih]

theorem gapMask_blank {b : UInt8} (hb : b ∈ blanks) (bs : List UInt8) :
    gapMask false (b :: bs) = false :: gapMask false bs := by
  rcases blank_cases hb with rfl | rfl | rfl | rfl <;> rfl

theorem gapMask_line {body gap : List UInt8} (hbody : lineFeed ∉ body)
    (hfeed : ∀ b ∈ gap.head?, b = lineFeed) :
    gapMask true (body ++ gap) = List.replicate body.length true ++ gapMask false gap := by
  induction body with
  | nil =>
    cases gap with
    | nil => rfl
    | cons b gap =>
      obtain rfl := hfeed b rfl
      rfl
  | cons b body ih =>
    simp only [List.mem_cons, not_or] at hbody
    have hb : b ≠ lineFeed := fun heq => hbody.1 heq.symm
    simp [gapMask, hb, ih hbody.2, List.replicate_succ]

theorem gapMask_comment {body gap rest : List UInt8} (hbody : lineFeed ∉ body)
    (hfeed : ∀ b ∈ (gap ++ rest).head?, b = lineFeed) :
    gapMask false (slash :: slash :: body ++ gap) =
      List.replicate (slash :: slash :: body).length true ++ gapMask false gap := by
  have hslash : slash ≠ lineFeed := by decide
  have hhead : ∀ b ∈ gap.head?, b = lineFeed := by
    intro b hb
    refine hfeed b ?_
    rw [List.head?_append, Option.mem_def.mp hb]
    rfl
  simp [gapMask, hslash, gapMask_line hbody hhead, List.replicate_succ]

theorem count_zip_replicate_true (bs : List UInt8) (n : Nat) :
    (bs.zip (List.replicate n true)).count (quoteMark, false) = 0 := by
  rw [List.count_eq_zero]
  intro hmem
  have hfalse := List.eq_of_mem_replicate (List.of_mem_zip hmem).2
  contradiction

theorem Gap.count_zip {comments : Bool} {gap rest : List UInt8} (h : Gap comments gap rest) :
    (gap.zip (gapMask false gap)).count (quoteMark, false) = 0 := by
  induction h with
  | nil => rfl
  | @blank b gap rest hblank _ ih =>
    have hquote : b ≠ quoteMark := by
      rcases blank_cases hblank with rfl | rfl | rfl | rfl <;> decide
    simp [gapMask_blank hblank, hquote, ih]
  | @comment body gap rest _ hbody hfeed _ ih =>
    rw [← List.cons_append, ← List.cons_append, gapMask_comment hbody hfeed,
      List.zip_append List.length_replicate.symm, List.count_append, count_zip_replicate_true, ih]

theorem Gap.gapMask_eq {gap rest : List UInt8} (h : Gap false gap rest) :
    gapMask false gap = List.replicate gap.length false := by
  induction gap with
  | nil => rfl
  | cons b gap ih =>
    cases h with
    | blank hblank hgap => rw [gapMask_blank hblank, ih hgap, List.length_cons, List.replicate_succ]
    | comment hcomments _ _ _ => contradiction

theorem count_zip_replicate (bs : List UInt8) :
    (bs.zip (List.replicate bs.length false)).count (quoteMark, false) = bs.count quoteMark := by
  induction bs with
  | nil => rfl
  | cons b bs ih => simp [List.replicate_succ, List.count_cons, ih]

end Gap

section Lexes

variable {features : Features} {p : Position} {lexeme tail : List UInt8} {item : Item Kinds}

theorem quoteMark_not_mem_word {word : List UInt8} (hquoted : features.quotedStrings = true)
    (hword : ∀ b ∈ word, ¬ IsDelimiter features b) : quoteMark ∉ word :=
  fun hmem => hword quoteMark hmem (.inr (.inr ⟨hquoted, rfl⟩))

theorem WordKind.ne_quoted {word : List UInt8} {kind : Kind} (h : WordKind word kind) :
    kind ≠ .quoted := by
  cases h <;> decide

/-- A quoted string holds two quotes, an error is one, and other lexemes hold none. -/
theorem Lexes.count_quoteMark (hquoted : features.quotedStrings = true)
    (h : Lexes features p lexeme tail item) : lexeme.count quoteMark =
      2 * (if isQuoted item then 1 else 0) + if !item.isOk then 1 else 0 := by
  cases h with
  | unterminated _ _ => rfl
  | @token kind _ _ text hlexeme _ =>
    have hok : (Except.ok ⟨.ofKind kind, some text, p⟩ : Item Kinds).isOk = true := rfl
    have hkind : isQuoted (.ok ⟨.ofKind kind, some text, p⟩) = decide (kind = .quoted) := by
      simp only [isQuoted, Kinds.ofKind_inj]
    rw [hok, hkind]
    cases hlexeme with
    | mark hmark => cases hmark <;> rfl
    | quoted _ hbody =>
      have hnone : _ = 0 := List.count_eq_zero_of_not_mem hbody
      simp [hnone]
    | word _ hword _ hwordKind =>
      rw [List.count_eq_zero_of_not_mem (quoteMark_not_mem_word hquoted hword)]
      simp [hwordKind.ne_quoted]

/-- Only bytes with a quote are a quoted string or an error. -/
theorem Lexes.quoteMark_mem (h : Lexes features p lexeme tail item)
    (hitem : isQuoted item = true ∨ item.isOk = false) : quoteMark ∈ lexeme := by
  cases h with
  | unterminated _ _ => exact List.mem_cons_self
  | @token kind _ _ text hlexeme _ =>
    have hkind : kind = .quoted := by
      rcases hitem with hquoted | herror
      · exact Kinds.ofKind_inj.mp (of_decide_eq_true hquoted)
      · contradiction
    subst hkind
    cases hlexeme with
    | mark hmark => cases hmark
    | quoted _ _ => exact List.mem_cons_self
    | word _ _ _ hwordKind => exact absurd rfl hwordKind.ne_quoted

end Lexes

namespace Lexed

variable {features : Features} {p : Position} {bs : List UInt8} {items : List (Item Kinds)}

/-- What an error stands at is the last quote. -/
theorem error_eq (h : Lexed features p bs items) {e : LexError} (he : .error e ∈ items) :
    features.quotedStrings = true ∧ ∃ front back, bs = front ++ quoteMark :: back ∧
      quoteMark ∉ back ∧ e = ⟨.unterminated quoteMark, p.pass front⟩ := by
  obtain ⟨front, back, rfl⟩ := List.append_of_mem he
  obtain ⟨before, lexeme, tail, rfl, hlexes, -⟩ := h.split
  cases hlexes with
  | unterminated hquoted htail => exact ⟨hquoted, before, tail, rfl, htail, rfl⟩

/-- Without a quote there are no quoted strings and no errors. -/
theorem of_not_mem (h : Lexed features p bs items) (hnone : quoteMark ∉ bs) :
    ∀ item ∈ items, isQuoted item = false ∧ item.isOk = true := by
  intro item hitem
  obtain ⟨front, back, rfl⟩ := List.append_of_mem hitem
  obtain ⟨before, lexeme, tail, rfl, hlexes, -⟩ := h.split
  have hlexeme : quoteMark ∉ lexeme := fun hmem => hnone (by simp [hmem])
  constructor
  · exact eq_false_of_ne_true fun hquoted => hlexeme (hlexes.quoteMark_mem (.inl hquoted))
  · exact eq_true_of_ne_false fun herror => hlexeme (hlexes.quoteMark_mem (.inr herror))

/-- Behind an error no quote is left. -/
theorem behind_error {front back : List (Item Kinds)} {e : LexError}
    (h : Lexed features p bs (front ++ .error e :: back)) :
    ∀ item ∈ back, isQuoted item = false ∧ item.isOk = true := by
  obtain ⟨before, lexeme, tail, rfl, hlexes, hback⟩ := h.split
  cases hlexes with
  | unterminated _ htail => exact hback.of_not_mem htail

theorem errors_le_one (h : Lexed features p bs items) : items.countP (!·.isOk) ≤ 1 := by
  induction items generalizing p bs with
  | nil => exact Nat.zero_le 1
  | cons item items ih =>
    cases hitem : item with
    | error e =>
      subst hitem
      have hnone : items.countP (!·.isOk) = 0 := by
        rw [List.countP_eq_zero]
        intro item hmem
        simp [(@behind_error features p bs [] items e h item hmem).2]
      rw [List.countP_cons, hnone]
      exact Nat.le_refl 1
    | ok token =>
      subst hitem
      cases h with
      | item _ _ _ hrest => simpa [List.countP_cons, Except.isOk, Except.toBool] using ih hrest

/-- The comment mask of a gap, the lexeme behind it and the rest. -/
theorem commentMask_cons {gap lexeme tail : List UInt8} {item : Item Kinds}
    (hlexes : Lexes features (p.pass gap) lexeme tail item) (items : List (Item Kinds)) :
    commentMask p.offset (gap ++ lexeme ++ tail) (item :: items) =
      gapMask false gap ++ List.replicate lexeme.length false
        ++ commentMask (p.pass (gap ++ lexeme)).offset tail items := by
  have hgap : itemOffset item - p.offset = gap.length := by
    rw [hlexes.itemOffset_eq, Position.pass_offset, Nat.add_sub_cancel_left]
  have hoffset : (p.pass (gap ++ lexeme)).offset = p.offset + gap.length + lexeme.length := by
    rw [Position.pass_offset, List.length_append, Nat.add_assoc]
  rw [commentMask]
  simp only [hgap, hlexes.itemBytes_eq, hoffset]
  rw [← List.length_append, List.drop_left, List.append_assoc gap, List.take_left]

/-- Outside comments, every quote is one of two around a quoted string or an error. -/
theorem balance (hquoted : features.quotedStrings = true) (h : Lexed features p bs items) :
    quotesOutside p.offset bs items = 2 * items.countP isQuoted + items.countP (!·.isOk) := by
  induction h with
  | stop hgap => exact hgap.count_zip
  | @item p gap lexeme tail item items hgap _ hlexes _ ih =>
    have hcount := hlexes.count_quoteMark hquoted
    unfold quotesOutside at ih ⊢
    rw [commentMask_cons hlexes, List.zip_append (by simp [length_gapMask]),
      List.zip_append (by simp [length_gapMask]), List.count_append, List.count_append,
      hgap.count_zip, count_zip_replicate, hcount, ih, List.countP_cons, List.countP_cons]
    omega

theorem commentMask_eq (hcomments : features.lineComments = false)
    (h : Lexed features p bs items) :
    commentMask p.offset bs items = List.replicate bs.length false := by
  induction h with
  | stop hgap =>
    rw [hcomments] at hgap
    exact hgap.gapMask_eq
  | @item p gap lexeme tail item items hgap _ hlexes _ ih =>
    rw [hcomments] at hgap
    rw [commentMask_cons hlexes, hgap.gapMask_eq, ih]
    simp [Nat.add_assoc]

end Lexed

/-- The run over a source tells its quotes: outside comments they come in pairs
around quoted strings, and a last one without a partner is the only error. -/
theorem run_quoteBalance (source : Source) (features : Features) : ∃ items last u,
    Tokenizer.Run (.ofSource source features : BraceTokenizer) items last u ∧
      QuoteBalance features source items := by
  obtain ⟨items, hlexed, hrun⟩ := exists_run features (Cursor.ofSource_onBoundary source)
  have hlexed' : Lexed features .start source.bytes items := hlexed
  have hone := hlexed'.errors_le_one
  refine ⟨items, _, _, hrun, hone, ?_, ?_, ?_, ?_, ?_⟩
  · intro e he
    exact (hlexed'.error_eq he).2
  · intro front e back heq item hitem
    rw [heq] at hlexed'
    exact (hlexed'.behind_error item hitem).1
  · intro hquoted item hitem
    cases item with
    | ok token => rfl
    | error e =>
      have hon := (hlexed'.error_eq hitem).1
      rw [hquoted] at hon
      contradiction
  · intro hquoted
    exact hlexed'.balance hquoted
  · intro hquoted hcomments
    have hbalance := hlexed'.balance hquoted
    have hmask : commentMask 0 source.bytes items = _ := hlexed'.commentMask_eq hcomments
    have hall : (∀ item ∈ items, item.isOk = true) ↔ items.countP (!·.isOk) = 0 := by
      simp [List.countP_eq_zero]
    have hcount : quotesOutside 0 source.bytes items = source.bytes.count quoteMark := by
      rw [quotesOutside, hmask, count_zip_replicate]
    have hbalance' : quotesOutside 0 source.bytes items = _ := hbalance
    rw [hall, ← hcount, hbalance']
    omega

end Lexing.Brace
