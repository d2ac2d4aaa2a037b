import Lexing.Proofs.Brace.Gap
import Lexing.Proofs.FirstFit

/-! The lexemes of the brace language: what a scan finds where no gap can be
skipped, and how far it consumes the input. -/

namespace Lexing.Brace

/-- The lexemes of one byte: braces, the equals sign and the semicolon. -/
inductive Mark : UInt8 → Kind → Prop
  | openBrace : Mark 123 .openBrace
  | closeBrace : Mark 125 .closeBrace
  | equals : Mark 61 .equals
  | semicolon : Mark 59 .semicolon

/-- The bytes at which a word ends. -/
def IsDelimiter (features : Features) (b : UInt8) : Prop :=
  (∃ kind, Mark b kind) ∨ b ∈ blanks ∨ (features.quotedStrings = true ∧ b = quoteMark)

/-- The kind of a word by the way it is written. -/
inductive WordKind (word : List UInt8) : Kind → Prop
  | integer : IsInteger word → WordKind word .integer
  | decimal : IsDecimal word → WordKind word .decimal
  | string : ¬ IsInteger word → ¬ IsDecimal word → WordKind word .string

/-- The bytes are a lexeme of a kind in front of others. -/
inductive Lexeme (features : Features) : Kind → List UInt8 → List UInt8 → Prop
  | mark {b kind rest} : Mark b kind → Lexeme features kind [b] rest
  | quoted {body rest} : features.quotedStrings = true → quoteMark ∉ body →
      Lexeme features .quoted (quoteMark :: (body ++ [quoteMark])) rest
  | word {word kind rest} : word ≠ [] → (∀ b ∈ word, ¬ IsDelimiter features b) →
      (∀ b ∈ rest.head?, IsDelimiter features b) → WordKind word kind →
      Lexeme features kind word rest

/-- The item for the bytes at some place, in front of others. A quote without a
second one is an error by itself. -/
inductive Lexes (features : Features) (p : Position) : List UInt8 → List UInt8 → Item Kinds → Prop
  | token {kind lexeme rest text} : Lexeme features kind lexeme rest →
      encode text.toList = lexeme → Lexes features p lexeme rest (.ok ⟨.ofKind kind, some text, p⟩)
  | unterminated {rest} : features.quotedStrings = true → quoteMark ∉ rest →
      Lexes features p [quoteMark] rest (.error ⟨.unterminated quoteMark, p⟩)

theorem Mark.isAscii {b : UInt8} {kind : Kind} (h : Mark b kind) : isAscii b = true := by
  cases h <;> rfl

theorem Mark.numberFree {b : UInt8} {kind : Kind} (h : Mark b kind) :
    isDigit b = false ∧ b ≠ minusSign ∧ b ≠ decimalPoint := by
  cases h <;> decide

theorem punctuation?_eq_some {b : UInt8} {kind : Kind} :
    punctuation? b = some kind ↔ Mark b kind := by
  constructor
  · intro h
    obtain ⟨before, behind, heq, -⟩ := List.lookup_eq_some_iff.mp h
    have hmem : (b, kind) ∈ punctuation := by
      rw [heq]
      exact List.mem_append_right _ List.mem_cons_self
    simp only [punctuation, List.mem_cons, List.not_mem_nil, or_false, Prod.mk.injEq] at hmem
    rcases hmem with ⟨rfl, rfl⟩ | ⟨rfl, rfl⟩ | ⟨rfl, rfl⟩ | ⟨rfl, rfl⟩
    · exact .openBrace
    · exact .closeBrace
    · exact .equals
    · exact .semicolon
  · intro h
    cases h <;> rfl

theorem punctuation?_eq_none {b : UInt8} : punctuation? b = none ↔ ∀ kind, ¬ Mark b kind := by
  rw [Option.eq_none_iff_forall_ne_some]
  constructor
  · intro h kind hmark
    exact h kind (punctuation?_eq_some.mpr hmark)
  · intro h kind hsome
    exact h kind (punctuation?_eq_some.mp hsome)

theorem mem_punctuation {b : UInt8} : b ∈ punctuation.map Prod.fst ↔ ∃ kind, Mark b kind := by
  constructor
  · intro h
    simp only [punctuation, List.map_cons, List.map_nil, List.mem_cons, List.not_mem_nil,
      or_false] at h
    rcases h with rfl | rfl | rfl | rfl
    · exact ⟨_, .openBrace⟩
    · exact ⟨_, .closeBrace⟩
    · exact ⟨_, .equals⟩
    · exact ⟨_, .semicolon⟩
  · rintro ⟨kind, hmark⟩
    cases hmark <;> decide

theorem mem_delimiters {features : Features} {b : UInt8} :
    b ∈ delimiters features ↔ IsDelimiter features b := by
  have halways : b ∈ (StopSet.ofList (punctuation.map Prod.fst)).union .whitespace ↔
      (∃ kind, Mark b kind) ∨ b ∈ blanks := by
    have hascii : ∀ b ∈ punctuation.map Prod.fst, isAscii b = true := by
      intro b hb
      obtain ⟨kind, hmark⟩ := mem_punctuation.mp hb
      exact hmark.isAscii
    rw [StopSet.mem_union, StopSet.mem_ofList hascii, mem_whitespace, mem_punctuation]
  rw [delimiters, IsDelimiter]
  split
  · next hquoted =>
    rw [StopSet.mem_insert rfl, halways]
    simp only [hquoted, true_and]
    constructor
    · rintro (hquote | hmark | hblank)
      · exact .inr (.inr hquote)
      · exact .inl hmark
      · exact .inr (.inl hblank)
    · rintro (hmark | hblank | hquote)
      · exact .inr (.inl hmark)
      · exact .inr (.inr hblank)
      · exact .inl hquote
  · next hquoted => simp [halways, hquoted]

theorem numberFree_delimiters (features : Features) : (delimiters features).NumberFree := by
  intro b hb
  rcases mem_delimiters.mp hb with ⟨kind, hmark⟩ | hblank | ⟨-, rfl⟩
  · exact hmark.numberFree
  · rcases blank_cases hblank with rfl | rfl | rfl | rfl <;> decide
  · decide

theorem WordKind.exists (word : List UInt8) : ∃ kind, WordKind word kind := by
  by_cases hint : IsInteger word
  · exact ⟨_, .integer hint⟩
  · by_cases hdec : IsDecimal word
    · exact ⟨_, .decimal hdec⟩
    · exact ⟨_, .string hint hdec⟩

section Read

variable {c : Cursor} {stops : StopSet} {b : UInt8} {bs tail : List UInt8}

/-- A word fits in the shape of its kind and in none that is tried before. -/
theorem WordKind.firstFit {word : List UInt8} {kind : Kind} (h : WordKind word kind)
    (hne : word ≠ []) : FirstFit word lexemes (Kinds.ofKind kind) := by
  cases h with
  | integer hint => exact ⟨[], .integer, _, rfl, by simp, hint⟩
  | decimal hdec =>
    have hint : ¬ Shape.integer.Fits word := fun h => h.point_not_mem hdec.point_mem
    exact ⟨[_], .decimal, _, rfl, by simpa using hint, .inr hdec⟩
  | string hint hdec =>
    have hneither : ¬ Shape.decimal.Fits word := fun h => h.elim hint hdec
    exact ⟨[_, _], .word, [], rfl, by simpa using ⟨hint, hneither⟩, hne⟩

/-- The three shapes together read every word as a whole, and tell its kind. -/
theorem classify_eq (hfree : stops.NumberFree) (hrest : c.rest = b :: bs ++ tail)
    (hrun : Stretch (fun b => !stops.contains b) (b :: bs) tail) {kind : Kind}
    (hkind : WordKind (b :: bs) kind) : (c.pass [b]).classify c.position.offset stops lexemes =
      some (.ofKind kind, c.position.offset + (b :: bs).length, c.pass (b :: bs)) := by
  have hdrop : (c.pass [b]).source.bytes.drop c.position.offset = b :: bs ++ tail := hrest
  have hfirst : FirstFit (b :: bs) lexemes (Kinds.ofKind kind) :=
    hkind.firstFit (List.cons_ne_nil b bs)
  rw [(Cursor.classify_eq_some_iff hfree hdrop hrun).mpr ⟨hfirst, rfl⟩,
    Cursor.advanceTo_of_rest hrest]

end Read

section Emit

variable {c : Cursor} {lexeme tail : List UInt8}

/-- The token of a lexeme that starts at a cursor and ends between characters. -/
theorem emitToken_eq (features : Features) (tag : Kinds) (hc : c.OnBoundary)
    (hrest : c.rest = lexeme ++ tail) (hne : lexeme ≠ []) (hend : (c.pass lexeme).OnBoundary) :
    ∃ text, c.source.cut? c.offset (c.offset + lexeme.length) = some text ∧
      encode text.toList = lexeme ∧
      emitToken features (c.pass lexeme) tag c.position (c.position.offset + lexeme.length) =
        ⟨.ok (.ok ⟨tag, some text, c.position⟩), features, c.pass lexeme⟩ := by
  obtain ⟨text, hcut, hbytes⟩ := hc.slice hend hrest
  have htext : text ≠ "" := by
    rintro rfl
    exact hne hbytes.symm
  have hcut' : (c.pass lexeme).source.cut? c.position.offset (c.position.offset + lexeme.length) =
      some text := hcut
  have htoken : (c.pass lexeme).token tag c.position (c.position.offset + lexeme.length) =
      .ok ⟨tag, some text, c.position⟩ :=
    Cursor.token_of_cut tag (Nat.le_add_right _ _) hcut' htext
  refine ⟨text, hcut, hbytes, ?_⟩
  rw [emitToken, htoken]
  rfl

/-- A quoted string is read up to the next quote, from behind its first one. -/
theorem readQuoted_eq {body : List UInt8} (hbody : quoteMark ∉ body)
    (hrest : c.rest = quoteMark :: (body ++ [quoteMark]) ++ tail) :
    (c.pass [quoteMark]).readQuoted c.position.offset quoteMark =
      .ok (some (c.position.offset + (quoteMark :: (body ++ [quoteMark])).length,
        c.pass (quoteMark :: (body ++ [quoteMark])))) := by
  have hlen : Shape.quotedLength? quoteMark (quoteMark :: (body ++ [quoteMark]) ++ tail) =
      some (quoteMark :: (body ++ [quoteMark])).length := by
    have heq : quoteMark :: (body ++ [quoteMark]) ++ tail =
        quoteMark :: (body ++ quoteMark :: tail) := by simp
    rw [heq, quotedLength?_eq_some hbody]
    simp
  have hascii : isAscii quoteMark = true := rfl
  have hdrop : (c.pass [quoteMark]).source.bytes.drop c.position.offset = _ := hrest
  rw [Cursor.readQuoted, if_pos hascii, hdrop, hlen, Option.map_some,
    Cursor.advanceTo_of_rest hrest]

theorem readQuoted_eq_none {body : List UInt8} (hbody : quoteMark ∉ body)
    (hrest : c.rest = quoteMark :: body) :
    (c.pass [quoteMark]).readQuoted c.position.offset quoteMark = .ok none := by
  have hascii : isAscii quoteMark = true := rfl
  have hdrop : (c.pass [quoteMark]).source.bytes.drop c.position.offset = quoteMark :: body := hrest
  rw [Cursor.readQuoted, if_pos hascii, hdrop, quotedLength?_eq_none hbody, Option.map_none]

variable {features : Features}

theorem Lexeme.ne_nil {kind : Kind} (h : Lexeme features kind lexeme tail) : lexeme ≠ [] := by
  cases h with
  | mark _ | quoted _ _ => exact List.cons_ne_nil _ _
  | word hne _ _ _ => exact hne

/-- Only a word asks what comes behind it, and no lexeme asks about comments. -/
theorem Lexeme.of_tail {kind : Kind} (h : Lexeme features kind lexeme tail)
    {features' : Features} (hquoted : features'.quotedStrings = features.quotedStrings)
    {tail' : List UInt8} (htail : (∀ b ∈ tail.head?, IsDelimiter features b) →
      ∀ b ∈ tail'.head?, IsDelimiter features b) : Lexeme features' kind lexeme tail' := by
  have hsame : IsDelimiter features' = IsDelimiter features := by
    funext b
    rw [IsDelimiter, hquoted, ← IsDelimiter]
  cases h with
  | mark hmark => exact .mark hmark
  | quoted hon hbody => exact .quoted (hquoted.trans hon) hbody
  | word hne hword hstop hkind =>
    have hstop' := htail hstop
    rw [← hsame] at hword hstop'
    exact .word hne hword hstop' hkind

theorem Lexeme.onBoundary {kind : Kind} (h : Lexeme features kind lexeme tail)
    (hc : c.OnBoundary) (hrest : c.rest = lexeme ++ tail) : (c.pass lexeme).OnBoundary := by
  cases h with
  | mark hmark => exact (Cursor.onBoundary_of_rest_cons hmark.isAscii hrest).2
  | @quoted body _ _ _ =>
    have hquote : (c.pass (quoteMark :: body)).rest = quoteMark :: tail :=
      Cursor.rest_pass (by simpa using hrest)
    have hpass := (Cursor.onBoundary_of_rest_cons (b := quoteMark) rfl hquote).2
    rw [← Cursor.pass_append] at hpass
    exact hpass
  | word _ _ htail _ =>
    exact hc.pass_stop
      (fun b hb => StopSet.isAscii_of_mem (mem_delimiters.mpr (htail b hb))) hrest

theorem Lexeme.emitLexeme_eq {kind : Kind} (h : Lexeme features kind lexeme tail)
    (hc : c.OnBoundary) (hrest : c.rest = lexeme ++ tail) :
    ∃ text, c.source.cut? c.offset (c.offset + lexeme.length) = some text ∧
      encode text.toList = lexeme ∧ emitLexeme features c =
        ⟨.ok (.ok ⟨.ofKind kind, some text, c.position⟩), features, c.pass lexeme⟩ := by
  obtain ⟨text, hcut, hbytes, hemit⟩ :=
    emitToken_eq features (.ofKind kind) hc hrest h.ne_nil (h.onBoundary hc hrest)
  refine ⟨text, hcut, hbytes, ?_⟩
  cases h with
  | mark hmark =>
    unfold emitLexeme
    rw [Cursor.next_eq hrest]
    dsimp only
    rw [punctuation?_eq_some.mpr hmark]
    exact hemit
  | quoted hquoted hbody =>
    have hmark : punctuation? quoteMark = none := rfl
    unfold emitLexeme
    rw [Cursor.next_eq hrest]
    dsimp only
    rw [hmark]
    dsimp only
    rw [if_pos ⟨rfl, hquoted⟩, readQuoted_eq hbody hrest]
    exact hemit
  | word hne hword htail hkind =>
    obtain ⟨b, bs, rfl⟩ := List.exists_cons_of_ne_nil hne
    have hrun : Stretch (fun b => !(delimiters features).contains b) (b :: bs) tail :=
      stretch_of_terminated (fun a ha hmem => hword a ha (mem_delimiters.mp hmem))
        (terminated_iff.mpr fun a ha => mem_delimiters.mpr (htail a ha))
    have hfirst := hword b List.mem_cons_self
    have hmark : punctuation? b = none :=
      punctuation?_eq_none.mpr fun kind hmark => hfirst (.inl ⟨kind, hmark⟩)
    have hquote : ¬ (b = quoteMark ∧ features.quotedStrings = true) :=
      fun h => hfirst (.inr (.inr ⟨h.2, h.1⟩))
    unfold emitLexeme
    rw [Cursor.next_eq hrest]
    dsimp only
    rw [hmark]
    dsimp only
    rw [if_neg hquote, classify_eq (numberFree_delimiters features) hrest hrun hkind]
    exact hemit

/-- A quote that is alone is answered with an error, behind that quote. -/
theorem emitLexeme_unterminated (hquoted : features.quotedStrings = true) (htail : quoteMark ∉ tail)
    (hrest : c.rest = quoteMark :: tail) : emitLexeme features c =
      ⟨.ok (.error ⟨.unterminated quoteMark, c.position⟩), features, c.pass [quoteMark]⟩ := by
  have hmark : punctuation? quoteMark = none := rfl
  unfold emitLexeme
  rw [Cursor.next_eq hrest]
  dsimp only
  rw [hmark]
  dsimp only
  rw [if_pos ⟨rfl, hquoted⟩, readQuoted_eq_none htail hrest]

end Emit

/-- A byte that is no delimiter starts a word. -/
theorem exists_word (features : Features) {first : UInt8} {rest : List UInt8}
    (hfirst : ¬ IsDelimiter features first) :
    ∃ kind word tail, first :: rest = word ++ tail ∧ Lexeme features kind word tail := by
  obtain ⟨word, tail, heq, hrun⟩ :=
    Stretch.exists_eq_append (fun b => !(delimiters features).contains b) (first :: rest)
  have hstop : ∀ b ∈ tail.head?, IsDelimiter features b := fun b hb =>
    mem_delimiters.mp (terminated_iff.mp hrun.terminated b hb)
  have hword : ∀ b ∈ word, ¬ IsDelimiter features b :=
    fun b hb hmem => hrun.not_mem_stops b hb (mem_delimiters.mpr hmem)
  have hne : word ≠ [] := by
    rintro rfl
    rw [List.nil_append] at heq
    exact hfirst (hstop first (by rw [← heq]; rfl))
  obtain ⟨kind, hkind⟩ := WordKind.exists word
  exact ⟨kind, word, tail, heq, .word hne hword hstop hkind⟩

/-- Where no gap can be skipped, the bytes start with a lexeme or with a quote
that is alone. -/
theorem exists_lexeme (features : Features) {bs : List UInt8} (hne : bs ≠ [])
    (hgap : NoGap features.lineComments bs) :
    (∃ kind lexeme tail, bs = lexeme ++ tail ∧ Lexeme features kind lexeme tail) ∨
      ∃ tail, bs = quoteMark :: tail ∧ features.quotedStrings = true ∧ quoteMark ∉ tail := by
  obtain ⟨first, rest, rfl⟩ := List.exists_cons_of_ne_nil hne
  by_cases hmark : ∃ kind, Mark first kind
  · obtain ⟨kind, hmark⟩ := hmark
    exact .inl ⟨kind, [first], rest, rfl, .mark hmark⟩
  by_cases hquote : features.quotedStrings = true ∧ first = quoteMark
  · obtain ⟨hquoted, rfl⟩ := hquote
    by_cases hmem : quoteMark ∈ rest
    · obtain ⟨body, tail, rfl, hbody⟩ := List.eq_append_cons_of_mem hmem
      exact .inl ⟨.quoted, _, tail, by simp, .quoted hquoted hbody⟩
    · exact .inr ⟨rest, rfl, hquoted, hmem⟩
  · left
    apply exists_word
    rintro (hmem | hblank | hquoted)
    · exact hmark hmem
    · exact hgap.not_blank first rfl hblank
    · exact hquote hquoted

end Lexing.Brace
