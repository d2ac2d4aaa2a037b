import Lexing.Proofs.Brace.Derivation

/-! Tokens written out again. A lexeme ends by itself in front of whitespace and does
not depend on what stood around it, so the texts of the tokens of a source, with
whitespace between them, are scanned as the same tokens. -/

namespace Lexing.Brace

/-- Nothing but whitespace. -/
def IsBlank (cs : List Char) : Prop := ∀ b ∈ encode cs, b ∈ blanks

instance (cs : List Char) : Decidable (IsBlank cs) := List.decidableBAll (· ∈ blanks) (encode cs)

/-- The texts of tokens, with some characters behind each of them and some in front
of the first. -/
def printed (lead : List Char) (spaced : List (Token Kinds × List Char)) : List Char :=
  lead ++ spaced.flatMap fun (token, blank) => token.data.toList ++ blank

/-- Only whitespace stands around the tokens, and some wherever two of them meet. -/
structure Spacing (tokens : List (Token Kinds)) (lead : List Char)
    (spaced : List (Token Kinds × List Char)) : Prop where
  tokens_eq : spaced.map Prod.fst = tokens
  lead_blank : IsBlank lead
  blank : ∀ pair ∈ spaced, IsBlank pair.2
  between : ∀ pair ∈ spaced.dropLast, pair.2 ≠ []

def tokensOf (items : List (Item Kinds)) : List (Token Kinds) := items.filterMap Except.toOption

/-- What is left of a token when its place is forgotten. -/
def spelling (token : Token Kinds) : Kinds × Option String := (token.tag, token.text)

/-- The text of a token is its lexeme at the end of the input too, and starts no gap. -/
structure Freestanding (features : Features) (token : Token Kinds) : Prop where
  text_eq : token.text = some token.data
  lexeme : ∃ kind, token.tag = .ofKind kind ∧ Lexeme features kind token.bytes []
  noGap : NoGap features.lineComments token.bytes

variable {features : Features} {p : Position}

theorem Lexes.freestanding {lexeme tail : List UInt8} {token : Token Kinds}
    (h : Lexes features p lexeme tail (.ok token))
    (hnone : NoGap features.lineComments (lexeme ++ tail)) : Freestanding features token := by
  have hbytes := h.bytes_eq
  cases h with
  | @token kind _ _ text hlexeme _ =>
    have hend : Lexeme features kind lexeme [] :=
      hlexeme.of_tail rfl fun _ b hb => by contradiction
    rw [← hbytes] at hend hnone
    exact ⟨rfl, ⟨kind, rfl, hend⟩, hnone.of_append⟩

theorem Lexed.freestanding {bs : List UInt8} {items : List (Item Kinds)}
    (h : Lexed features p bs items) : ∀ token ∈ tokensOf items, Freestanding features token := by
  induction h with
  | stop _ =>
    intro token hmem
    contradiction
  | @item p gap lexeme tail item items _ hnone hlexes _ ih =>
    intro token hmem
    obtain ⟨item', hitem, heq⟩ := List.mem_filterMap.mp hmem
    rcases List.mem_cons.mp hitem with rfl | hitem
    · cases item' with
      | error e => contradiction
      | ok token' =>
        cases heq
        exact hlexes.freestanding hnone
    · exact ih token (List.mem_filterMap.mpr ⟨item', hitem, heq⟩)

theorem Freestanding.lexed {token : Token Kinds} (h : Freestanding features token)
    {tail : List UInt8} (htail : ∀ b ∈ tail.head?, b ∈ blanks) {items : List (Item Kinds)}
    (hitems : Lexed features (p.pass token.bytes) tail items) :
    Lexed features p (token.bytes ++ tail) (.ok { token with position := p } :: items) := by
  obtain ⟨kind, htag, hlexeme⟩ := h.lexeme
  have hstop : Lexeme features kind token.bytes tail :=
    hlexeme.of_tail rfl fun _ b hb => .inr (.inl (htail b hb))
  have hlexes : Lexes features p token.bytes tail (.ok { token with position := p }) := by
    rw [htag, h.text_eq]
    exact .token hstop rfl
  have hnone := h.noGap.append_blank hlexeme.ne_nil htail
  have hgap : Gap features.lineComments [] (token.bytes ++ tail) := .nil
  exact .item hgap hnone hlexes hitems

theorem encode_printed_cons (token : Token Kinds) (blank : List Char)
    (spaced : List (Token Kinds × List Char)) :
    encode (printed [] ((token, blank) :: spaced)) =
      token.bytes ++ (encode blank ++ encode (printed [] spaced)) := by
  simp [printed, encode_append, Token.bytes]

/-- Where whitespace goes on it is followed by whitespace or by a token. -/
theorem head_blank_of_between {token : Token Kinds} {blank : List Char}
    {spaced : List (Token Kinds × List Char)} (hblank : IsBlank blank)
    (hbetween : ∀ pair ∈ ((token, blank) :: spaced).dropLast, pair.2 ≠ []) :
    ∀ b ∈ (encode blank ++ encode (printed [] spaced)).head?, b ∈ blanks := by
  intro b hb
  cases hbytes : encode blank with
  | cons a as =>
    rw [hbytes] at hb
    obtain rfl := Option.some.inj hb
    exact hblank a (by rw [hbytes]; exact List.mem_cons_self)
  | nil =>
    have hempty : blank = [] := eq_nil_of_encode_length (by rw [hbytes]; rfl)
    cases spaced with
    | nil =>
      rw [hbytes] at hb
      contradiction
    | cons pair spaced =>
      exact absurd hempty (hbetween (token, blank) (by simp))

/-- Spaced tokens are scanned as they are spelled. -/
theorem lexed_printed {spaced : List (Token Kinds × List Char)}
    (htokens : ∀ pair ∈ spaced, Freestanding features pair.1)
    (hblank : ∀ pair ∈ spaced, IsBlank pair.2)
    (hbetween : ∀ pair ∈ spaced.dropLast, pair.2 ≠ []) (p : Position) :
    ∃ tokens : List (Token Kinds),
      Lexed features p (encode (printed [] spaced)) (tokens.map .ok) ∧
      tokens.map spelling = spaced.map fun pair => spelling pair.1 := by
  induction spaced generalizing p with
  | nil => exact ⟨[], .stop .nil, rfl⟩
  | cons pair spaced ih =>
    obtain ⟨token, blank⟩ := pair
    have hfirst := hblank (token, blank) List.mem_cons_self
    have hrest : ∀ pair ∈ spaced.dropLast, pair.2 ≠ [] := by
      intro pair hpair
      have hne : spaced ≠ [] := by
        rintro rfl
        contradiction
      refine hbetween pair ?_
      rw [List.dropLast_cons_of_ne_nil hne]
      exact List.mem_cons_of_mem _ hpair
    obtain ⟨tokens, hlexed, hspelling⟩ :=
      ih (fun pair hpair => htokens pair (List.mem_cons_of_mem _ hpair))
        (fun pair hpair => hblank pair (List.mem_cons_of_mem _ hpair)) hrest
        ((p.pass token.bytes).pass (encode blank))
    -- The whitespace behind the first token goes to the gap of the second one.
    have htail := hlexed.behind_gap fun _ _ hgap => hgap.blanks_append hfirst
    have hhead := head_blank_of_between hfirst hbetween
    refine ⟨{ token with position := p } :: tokens, ?_, ?_⟩
    · rw [encode_printed_cons, List.map_cons]
      exact (htokens (token, blank) List.mem_cons_self).lexed hhead htail
    · rw [List.map_cons, List.map_cons, hspelling]
      rfl

/-- The tokens of a source, written out with any whitespace around them, are scanned
without error as the same tokens. -/
theorem run_printed (source : Source) (features : Features) : ∃ items last u,
    Tokenizer.Run (.ofSource source features : BraceTokenizer) items last u ∧
      ∀ lead spaced, Spacing (tokensOf items) lead spaced →
        ∃ (tokens : List (Token Kinds)) (v : BraceTokenizer),
          Tokenizer.Run (.ofSource (.ofChars (printed lead spaced)) features) (tokens.map .ok)
            (.sentinel (.ofKind .endOfInput)
              (Position.start.pass (encode (printed lead spaced)))) v ∧
          tokens.map spelling = (tokensOf items).map spelling := by
  obtain ⟨items, hlexed, hrun⟩ := exists_run features (Cursor.ofSource_onBoundary source)
  refine ⟨items, _, _, hrun, fun lead spaced hspacing => ?_⟩
  have htokens : ∀ pair ∈ spaced, Freestanding features pair.1 := by
    intro pair hpair
    refine hlexed.freestanding pair.1 ?_
    rw [← hspacing.tokens_eq]
    exact List.mem_map_of_mem hpair
  obtain ⟨tokens, hprinted, hspelling⟩ :=
    lexed_printed htokens hspacing.blank hspacing.between (Position.start.pass (encode lead))
  have hall := hprinted.behind_gap fun _ _ hgap => hgap.blanks_append hspacing.lead_blank
  rw [← encode_append] at hall
  refine ⟨tokens, _, hall.run (Cursor.ofSource_onBoundary _) rfl rfl, ?_⟩
  rw [hspelling, ← hspacing.tokens_eq, List.map_map]
  rfl

/-- A comment in which a quote stands, and behind it a quote without a partner. -/
def quoteBehindComment : Source := .ofString "x//y;\"// a\"//\"\n\"1"

/-- The texts of its tokens. The comment and the error are left out. -/
def respaced : List (Token Kinds × List Char) :=
  [(⟨.ofKind .string, some "x//y", ⟨0, 1, 1⟩⟩, ['\n']),
    (⟨.ofKind .semicolon, some ";", ⟨4, 1, 5⟩⟩, ['\t', ' ']),
    (⟨.ofKind .quoted, some "\"// a\"", ⟨5, 1, 6⟩⟩, [' ']),
    (⟨.ofKind .integer, some "1", ⟨16, 2, 2⟩⟩, [])]

theorem run_printed_quoteBehindComment :
    Spacing (respaced.map Prod.fst) [' '] respaced ∧
      ∃ (tokens : List (Token Kinds)) (v : BraceTokenizer),
        Tokenizer.Run (.ofSource (.ofString " x//y\n;\t \"// a\" 1") .all) (tokens.map .ok)
          (.sentinel (.ofKind .endOfInput) ⟨17, 2, 12⟩) v ∧
        tokens.map spelling = respaced.map fun pair => spelling pair.1 := by
  have hspacing : Spacing (respaced.map Prod.fst) [' '] respaced :=
    ⟨rfl, by decide, by decide, by decide⟩
  obtain ⟨items, last, u, hrun, hprinted⟩ := run_printed quoteBehindComment .all
  have hitems : Tokenizer.Run (.ofSource quoteBehindComment .all : BraceTokenizer)
      [.ok ⟨.ofKind .string, some "x//y", ⟨0, 1, 1⟩⟩,
        .ok ⟨.ofKind .semicolon, some ";", ⟨4, 1, 5⟩⟩,
        .ok ⟨.ofKind .quoted, some "\"// a\"", ⟨5, 1, 6⟩⟩,
        .error ⟨.unterminated quoteMark, ⟨15, 2, 1⟩⟩,
        .ok ⟨.ofKind .integer, some "1", ⟨16, 2, 2⟩⟩] _ _ :=
    .item rfl (by rintro _ ⟨⟩; rfl) (.item rfl (by rintro _ ⟨⟩; rfl)
      (.item rfl (by rintro _ ⟨⟩; rfl) (.item rfl (by rintro _ ⟨⟩)
        (.item rfl (by rintro _ ⟨⟩; rfl) (.stop rfl rfl)))))
  obtain ⟨rfl, -, -⟩ := hrun.unique hitems
  exact ⟨hspacing, hprinted [' '] respaced hspacing⟩

end Lexing.Brace
