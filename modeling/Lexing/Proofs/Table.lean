import Lexing.Table
import Lexing.Proofs.Excerpt
import Lexing.Proofs.Reading
import Lexing.Proofs.Transaction

/-! Scans by a table. Where the punctuation and the quote are characters of their own no scan
fails, although a table that reads no words lets its cursor stop inside a character: what it
finds there is an error, since a numeral has no such bytes. So a run goes to the end of the
source and counts its items. -/

namespace Lexing.Table

/-- The punctuation and the quote are characters of one byte. -/
structure Ascii (table : Table) : Prop where
  punctuation : ∀ b ∈ table.punctuation, isAscii b = true
  quote : ∀ b ∈ table.quote, isAscii b = true

/-- The cursor is in its source, and between characters if words are read. -/
structure Sound (table : Table) (c : Cursor) : Prop where
  le : c.offset ≤ c.source.length
  onBoundary : .word ∈ table.shapes → c.OnBoundary

/-- The second cursor is behind the first one in the same source. -/
structure Advanced (table : Table) (c c' : Cursor) : Prop where
  source_eq : c'.source = c.source
  lt : c.offset < c'.offset
  sound : Sound table c'

/-- A token or an error at the cursor, which goes ahead. -/
inductive Finds (s : State) (c : Cursor) : Emission State Tag → Prop
  | token {tag text place c'} : Advanced s.table c c' →
      Finds s c ⟨.ok (.ok ⟨tag, some text, place⟩), s, c'⟩
  | error {e c'} : Advanced s.table c c' → Finds s c ⟨.ok (.error e), s, c'⟩

section Numerals

variable {c : Cursor} {start : Nat} {left : Nat × Cursor} {shape : Shape} {stops : StopSet}

theorem isAscii_of_isDigit {b : UInt8} (h : isDigit b = true) : isAscii b = true := by
  simp only [isDigit, isAscii, Bool.and_eq_true, decide_eq_true_eq] at *
  exact UInt8.lt_of_le_of_lt h.2 (by decide)

theorem isAscii_of_fits (hshape : shape ≠ .word) {run : List UInt8} (h : shape.Fits run) :
    ∀ b ∈ run, isAscii b = true := by
  intro b hb
  have hcases : isDigit b = true ∨ b = minusSign ∨ b = decimalPoint := by
    cases shape with
    | integer => exact (IsInteger.mem_cases h hb).imp_right .inl
    | decimal => exact h.elim (fun h => (h.mem_cases hb).imp_right .inl) fun h => h.mem_cases hb
    | word => exact absurd rfl hshape
  rcases hcases with hdigit | rfl | rfl
  · exact isAscii_of_isDigit hdigit
  · rfl
  · rfl

theorem boundary_of_read (hshape : shape ≠ .word) (h : c.read shape start stops = some left) :
    c.source.Boundary start := by
  obtain ⟨run, tail, hdrop, hfits, -⟩ := Cursor.exists_of_read h
  obtain ⟨b, bs, rfl⟩ := List.exists_cons_of_ne_nil hfits.ne_nil
  have hb := isAscii_of_fits hshape hfits b List.mem_cons_self
  exact (Source.boundary_of_drop_eq_cons hb hdrop).1

end Numerals

section Lexeme

variable {s : State} {c : Cursor} {b : UInt8} {tail : List UInt8}

theorem advanced_of_boundary {table : Table} {c' : Cursor} (hsource : c'.source = c.source)
    (hlt : c.offset < c'.offset) (h : c.source.Boundary c'.offset) : Advanced table c c' := by
  rw [← hsource] at h
  exact ⟨hsource, hlt, h.le, fun _ => h⟩

/-- Behind an ASCII byte there is a boundary, wherever the byte was come upon. -/
theorem advanced_of_isAscii (table : Table) (hb : isAscii b = true) (hrest : c.rest = b :: tail) :
    Advanced table c (c.pass [b]) := by
  have hend := (Cursor.onBoundary_of_rest_cons hb hrest).2
  refine advanced_of_boundary rfl ?_ hend
  simp

theorem finds_token (s : State) (tag : Tag) {c' : Cursor} {stop : Nat}
    (hahead : Advanced s.table c c') (hstart : c.source.Boundary c.position.offset)
    (hend : c.source.LexemeEnd c.position.offset stop) :
    Finds s c (emitToken s c' tag c.position stop) := by
  rw [← hahead.source_eq] at hstart hend
  obtain ⟨text, hexcerpt⟩ := hend.excerpt hstart
  have htoken : c'.token tag c.position stop = .ok ⟨tag, some text, c.position⟩ :=
    hexcerpt.token_eq Tag tag c'.position c.position rfl
  rw [emitToken, htoken]
  exact .token hahead

theorem advanced_of_settled {table : Table} {stop : Nat} {c' : Cursor}
    (hsettled : Settled (c.pass [b]) c.position.offset (some stop, c'))
    (h : c.source.LexemeEnd c.position.offset stop) : Advanced table c c' := by
  cases hsettled with
  | read _ _ hahead _ hexact =>
    obtain ⟨bs, tail, -, rfl⟩ := hahead
    have hoffset := hexact (by simp [Cursor.offset])
    refine advanced_of_boundary rfl ?_ ?_
    · rw [hoffset]
      exact h.lt
    · rw [hoffset]
      exact h.boundary

/-- Where a word is among the shapes, only a stop is none. -/
theorem isAscii_of_classify {τ : Type} {stops : StopSet} {chain : List (τ × Shape)} {tag : τ}
    (hmem : (tag, Shape.word) ∈ chain) (hrest : c.rest = b :: tail)
    (h : (c.pass [b]).classify c.position.offset stops chain = none) : isAscii b = true := by
  have hword := List.findSome?_eq_none_iff.mp h _ hmem
  have hlen : Shape.wordLength? stops (b :: tail) = none := by
    rw [← hrest]
    exact Option.map_eq_none_iff.mp (Option.map_eq_none_iff.mp hword)
  by_cases hstop : b ∈ stops
  · exact StopSet.isAscii_of_mem hstop
  · rw [StopSet.mem_iff, Bool.not_eq_true] at hstop
    simp [Shape.wordLength?, hstop] at hlen

/-- A numeral starts at a boundary, and a word where the scan came by. -/
theorem Sound.boundary_of_classify {table : Table} (hc : Sound table c) {c' left : Cursor}
    {tag : Tag} {stop : Nat} (hsource : c'.source = c.source)
    (h : c'.classify c.position.offset table.stops
      (table.shapes.map fun shape => (Tag.ofShape shape, shape)) = some (tag, stop, left)) :
    c.source.Boundary c.position.offset := by
  obtain ⟨shape, hmem, hread⟩ := Cursor.exists_of_classify h
  obtain ⟨shape', hshape, hpair⟩ := List.mem_map.mp hmem
  obtain ⟨-, rfl⟩ := Prod.mk.inj hpair
  by_cases hword : shape' = .word
  · subst hword
    exact hc.onBoundary hshape
  · rw [← hsource]
    exact boundary_of_read hword hread

/-- Where no shape is found, the byte is a stop or no words are read. -/
theorem Sound.advanced_of_classify_eq_none {table : Table} (hc : Sound table c)
    (hrest : c.rest = b :: tail)
    (h : (c.pass [b]).classify c.position.offset table.stops
      (table.shapes.map fun shape => (Tag.ofShape shape, shape)) = none) :
    Advanced table c (c.pass [b]) := by
  refine ⟨rfl, by simp, Cursor.pass_le hc.le hrest, fun hword => ?_⟩
  have hmem : (Tag.word, Shape.word) ∈ table.shapes.map fun shape => (Tag.ofShape shape, shape) :=
    List.mem_map.mpr ⟨.word, hword, rfl⟩
  have hb := isAscii_of_classify hmem hrest h
  exact (Cursor.onBoundary_of_rest_cons hb hrest).2

/-- Whatever is found, it is no fault. -/
theorem emitLexeme_finds (h : s.table.Ascii) (hc : Sound s.table c) (hrest : c.rest = b :: tail) :
    Finds s c (emitLexeme s (c.pass [b]) c.position b) := by
  have hfirst : (c.pass [b]).offset ≤ c.source.length := Cursor.pass_le hc.le hrest
  rw [emitLexeme]
  split
  · next hmem =>
    have hb := h.punctuation b hmem
    obtain ⟨hstart, hstop⟩ := Source.boundary_of_drop_eq_cons hb hrest
    exact finds_token s _ (advanced_of_isAscii _ hb hrest) hstart
      (hstop.lexemeEnd (Nat.lt_succ_self _))
  · split
    · next hquote =>
      have hb := h.quote b hquote
      obtain ⟨hstart, -⟩ := Source.boundary_of_drop_eq_cons hb hrest
      obtain ⟨⟨found, c'⟩, -, hsettled, heq⟩ :=
        @readQuoted_settled c.source.length _ c.position.offset hfirst (Nat.le_refl _) b hb
      rw [heq]
      cases found with
      | none =>
        cases hsettled
        exact .error (advanced_of_isAscii _ hb hrest)
      | some stop =>
        have hend := Cursor.readQuoted_lexemeEnd heq
        exact finds_token s _ (advanced_of_settled hsettled hend) hstart hend
    · obtain ⟨⟨found, c'⟩, -, hsettled, -, heq⟩ :=
        @classify_settled Tag c.source.length _ c.position.offset s.table.stops hfirst
          (Nat.le_refl _) hc.le (s.table.shapes.map fun shape => (Tag.ofShape shape, shape))
      simp only [heq]
      cases found with
      | none =>
        cases hsettled
        exact .error (hc.advanced_of_classify_eq_none hrest heq)
      | some found =>
        have hend := Cursor.classify_lexemeEnd heq
        have hstart := hc.boundary_of_classify (c.pass_source [b]) heq
        exact finds_token s found.1 (advanced_of_settled hsettled hend) hstart hend

theorem Finds.exists_item {e : Emission State Tag} (h : Finds s c e) : ∃ item c',
    e = ⟨.ok item, s, c'⟩ ∧ (∀ token, item = .ok token → token.isSentinel = false) ∧
      Advanced s.table c c' := by
  cases h with
  | token hahead =>
    refine ⟨_, _, rfl, ?_, hahead⟩
    rintro token ⟨⟩
    rfl
  | error hahead => exact ⟨_, _, rfl, nofun, hahead⟩

end Lexeme

/-- One scan meets the end of the input, or it finds something and counts it. -/
inductive Scanned (s : State) (c : Cursor) : Emission State Tag → Prop
  | stop {c'} : c'.rest = [] → Sound s.table c' →
      Scanned s c ⟨.ok (.ok (c'.sentinel .endOfInput)), s, c'⟩
  | found {e} : Finds { s with emitted := s.emitted + 1 } c e → Scanned s c e

section Scan

variable {s : State} {c : Cursor}

/-- Whitespace is skipped without dividing a character. -/
theorem Sound.skipWhitespace {table : Table} (h : Sound table c) :
    Sound table c.skipWhitespace := by
  refine ⟨Cursor.discardWhile_le h.le _, fun hword => ?_⟩
  obtain ⟨run, tail, hrest, hrun⟩ := Stretch.exists_eq_append StopSet.whitespace.contains c.rest
  have hascii : ∀ b ∈ run, isAscii b = true := fun b hb => StopSet.isAscii_of_mem (hrun.all b hb)
  rw [Cursor.skipWhitespace, Cursor.discardWhile_eq, hrest, hrun.takeWhile_eq]
  exact (h.onBoundary hword).pass_ascii hascii hrest

theorem Advanced.trans_le {table : Table} {c₁ c₂ : Cursor} (h : Advanced table c₁ c₂)
    (hsource : c₁.source = c.source) (hle : c.offset ≤ c₁.offset) : Advanced table c c₂ :=
  ⟨h.source_eq.trans hsource, Nat.lt_of_le_of_lt hle h.lt, h.sound⟩

theorem emit_scanned (h : s.table.Ascii) (hc : Sound s.table c) : Scanned s c (emit s c) := by
  have hskip := hc.skipWhitespace
  have hle : c.offset ≤ c.skipWhitespace.offset := by
    rw [Cursor.skipWhitespace, Cursor.discardWhile_eq, Cursor.pass_offset]
    exact Nat.le_add_right _ _
  rw [emit]
  dsimp only
  split
  · next hend => exact .stop (Cursor.atEnd_iff.mp hend) hskip
  · next hmore =>
    obtain ⟨b, tail, hrest⟩ := List.exists_cons_of_ne_nil fun hempty =>
      hmore (Cursor.atEnd_iff.mpr hempty)
    rw [Cursor.next_eq hrest]
    have hfinds : Finds { s with emitted := s.emitted + 1 } c.skipWhitespace _ :=
      emitLexeme_finds h hskip hrest
    refine .found ?_
    dsimp only
    generalize emitLexeme _ _ _ _ = e at hfinds ⊢
    cases hfinds with
    | token hahead => exact .token (hahead.trans_le rfl hle)
    | error hahead => exact .error (hahead.trans_le rfl hle)

end Scan

/-- Without fault a run goes to the end of the source, and each item has been counted. -/
theorem exists_run {table : Table} (h : table.Ascii) {c : Cursor} (hc : Sound table c) (n : Nat) :
    ∃ items last u, Tokenizer.Run (⟨c, ⟨table, n⟩, none⟩ : Tokenizer State Tag) items last u ∧
      u.grammar = ⟨table, n + items.length⟩ ∧ u.cursor.rest = [] ∧
        items.length ≤ c.rest.length := by
  -- Each item is behind the one before it, so fewer bytes are left.
  induction hk : c.rest.length using Nat.strongRecOn generalizing c n with
  | ind k ih =>
    have hscanned := emit_scanned (s := ⟨table, n⟩) h hc
    generalize hemit : emit ⟨table, n⟩ c = e at hscanned
    cases hscanned with
    | stop hend hstop =>
      exact ⟨[], _, _, .stop (Tokenizer.next_of_emit hemit) rfl, rfl, hend, Nat.zero_le _⟩
    | found hfinds =>
      obtain ⟨item, c', rfl, hmore, hahead⟩ := hfinds.exists_item
      have hlt : c'.rest.length < k := by
        have hstart := hahead.lt
        have hstop := hahead.sound.le
        rw [hahead.source_eq] at hstop
        rw [← hk, Cursor.length_rest, Cursor.length_rest, hahead.source_eq]
        omega
      obtain ⟨items, last, u, hrun, hgrammar, hend, hle⟩ := ih _ hlt hahead.sound (n + 1) rfl
      refine ⟨item :: items, last, u, .item (Tokenizer.next_of_emit hemit) hmore hrun, ?_, hend, ?_⟩
      · rw [hgrammar, List.length_cons]
        congr 1
        omega
      · rw [List.length_cons]
        omega

/-- A new tokenizer reads its whole source, and its grammar knows how many items there were. -/
theorem items_eq {table : Table} (h : table.Ascii) (source : Source) : ∃ items u,
    (Tokenizer.ofSource source ⟨table, 0⟩ : Tokenizer State Tag).items = (.ok items, u) ∧
      u.grammar = ⟨table, items.length⟩ ∧ u.atEnd = true := by
  have hstart : Sound table (Cursor.ofSource source) :=
    ⟨Nat.zero_le _, fun _ => Cursor.ofSource_onBoundary source⟩
  obtain ⟨items, last, u, hrun, hgrammar, hend, hle⟩ := exists_run h hstart 0
  rw [Nat.zero_add] at hgrammar
  refine ⟨items, u, ?_, hgrammar, Cursor.atEnd_iff.mpr hend⟩
  apply hrun.reads.itemsWithin
  show items.length < (Cursor.ofSource source).rest.length + 2
  omega

end Lexing.Table
