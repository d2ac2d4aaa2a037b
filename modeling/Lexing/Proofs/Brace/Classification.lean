import Lexing.Proofs.Brace.Lexeme

/-! Which token a scan answers with. The answer is told by offsets alone: by the
byte behind the gap, and by where the next quote or the next delimiter is. -/

namespace Lexing.Brace

structure FirstFrom (p : UInt8 → Prop) (bytes : List UInt8) (start stop : Nat) : Prop where
  le : start ≤ stop
  before : ∀ i, start ≤ i → i < stop → ∀ b ∈ bytes[i]?, ¬ p b
  found : ∃ b ∈ bytes[stop]?, p b

def NoneFrom (p : UInt8 → Prop) (bytes : List UInt8) (start : Nat) : Prop :=
  ∀ i, start ≤ i → ∀ b ∈ bytes[i]?, ¬ p b

/-- A word ends at the first delimiter behind its first byte, or with the input. -/
def WordEnd (features : Features) (bytes : List UInt8) (start stop : Nat) : Prop :=
  FirstFrom (IsDelimiter features) bytes (start + 1) stop ∨
    NoneFrom (IsDelimiter features) bytes (start + 1) ∧ stop = bytes.length

/-- The tag of a word says exactly how it is written. -/
structure Tagged (tag : Kinds) (word : List UInt8) : Prop where
  integer : tag = .ofKind .integer ↔ IsInteger word
  decimal : tag = .ofKind .decimal ↔ IsDecimal word
  string : tag = .ofKind .string ↔ ¬ IsInteger word ∧ ¬ IsDecimal word

/-- The answer is the token of the bytes from the cursor up to `stop`, and the
scan ends there. -/
structure Answers (features : Features) (c : Cursor) (tag : Kinds) (text : String) (stop : Nat)
    (e : Emission Features Kinds) : Prop where
  result : e.result = .ok (.ok ⟨tag, some text, c.position⟩)
  cut : c.source.cut? c.offset stop = some text
  grammar : e.grammar = features
  cursor : e.cursor = c.pass (encode text.toList)
  ends : e.cursor.offset = stop

/-- The answer where the byte `first` stands behind the gap. -/
inductive Classified (features : Features) (c : Cursor) (first : UInt8)
    (e : Emission Features Kinds) : Prop
  | mark {kind text} : Mark first kind →
      Answers features c (.ofKind kind) text (c.offset + 1) e → Classified features c first e
  | quoted {close text} : features.quotedStrings = true → first = quoteMark →
      FirstFrom (· = quoteMark) c.source.bytes (c.offset + 1) close →
      Answers features c (.ofKind .quoted) text (close + 1) e → Classified features c first e
  | unterminated : features.quotedStrings = true → first = quoteMark →
      NoneFrom (· = quoteMark) c.source.bytes (c.offset + 1) →
      e = ⟨.ok (.error ⟨.unterminated quoteMark, c.position⟩), features, c.pass [quoteMark]⟩ →
      Classified features c first e
  | word {tag text stop} : (∀ kind, ¬ Mark first kind) →
      ¬ (features.quotedStrings = true ∧ first = quoteMark) →
      WordEnd features c.source.bytes c.offset stop → Answers features c tag text stop e →
      Tagged tag (encode text.toList) → Classified features c first e

section Offsets

variable {p : UInt8 → Prop} {bytes body tail : List UInt8} {start : Nat} {b : UInt8}

theorem getElem?_of_drop_eq (h : bytes.drop start = body) {i : Nat} (hi : start ≤ i) :
    bytes[i]? = body[i - start]? := by
  rw [← h, List.getElem?_drop, Nat.add_sub_cancel' hi]

theorem FirstFrom.of_drop (h : bytes.drop start = body ++ b :: tail) (hbody : ∀ a ∈ body, ¬ p a)
    (hb : p b) : FirstFrom p bytes start (start + body.length) := by
  refine ⟨Nat.le_add_right _ _, ?_, b, ?_, hb⟩
  · intro i hi hlt a ha
    rw [getElem?_of_drop_eq h hi, List.getElem?_append_left (by omega)] at ha
    exact hbody a (List.mem_of_getElem? ha)
  · rw [getElem?_of_drop_eq h (Nat.le_add_right _ _), Nat.add_sub_cancel_left,
      List.getElem?_append_right (Nat.le_refl _), Nat.sub_self]
    rfl

theorem NoneFrom.of_drop (h : bytes.drop start = body) (hbody : ∀ a ∈ body, ¬ p a) :
    NoneFrom p bytes start := by
  intro i hi a ha
  rw [getElem?_of_drop_eq h hi] at ha
  exact hbody a (List.mem_of_getElem? ha)

end Offsets

theorem WordKind.tagged {word : List UInt8} {kind : Kind} (h : WordKind word kind) :
    Tagged (.ofKind kind) word := by
  cases h with
  | integer hint =>
    have hdec : ¬ IsDecimal word := fun hdec => hint.point_not_mem hdec.point_mem
    constructor <;> simp [Kinds.ofKind_inj, hint, hdec]
  | decimal hdec =>
    have hint : ¬ IsInteger word := fun hint => hint.point_not_mem hdec.point_mem
    constructor <;> simp [Kinds.ofKind_inj, hint, hdec]
  | string hint hdec =>
    constructor <;> simp [Kinds.ofKind_inj, hint, hdec]

section Classify

variable {features : Features} {c : Cursor} {lexeme tail : List UInt8}

theorem drop_succ_offset {b : UInt8} {bs : List UInt8} (h : c.rest = b :: bs) :
    c.source.bytes.drop (c.offset + 1) = bs := by
  have hdrop : c.source.bytes.drop c.offset = b :: bs := h
  rw [← List.drop_drop, hdrop, List.drop_one, List.tail_cons]

theorem wordEnd_of_rest {b : UInt8} {bs : List UInt8} (hc : c.OnBoundary)
    (hrest : c.rest = b :: bs ++ tail) (hbs : ∀ a ∈ bs, ¬ IsDelimiter features a)
    (htail : ∀ a ∈ tail.head?, IsDelimiter features a) :
    WordEnd features c.source.bytes c.offset (c.offset + (b :: bs).length) := by
  have hdrop : c.source.bytes.drop (c.offset + 1) = bs ++ tail := drop_succ_offset hrest
  have hlen : c.offset + (b :: bs).length = c.offset + 1 + bs.length := by
    rw [List.length_cons]
    omega
  cases tail with
  | nil =>
    right
    rw [List.append_nil] at hrest
    constructor
    · rw [List.append_nil] at hdrop
      exact .of_drop hdrop hbs
    · rw [← hrest]
      exact hc.offset_add_length
  | cons a tail =>
    left
    rw [hlen]
    exact .of_drop hdrop hbs (htail a rfl)

/-- A lexeme at the cursor is classified by its first byte. -/
theorem Lexeme.classified {kind : Kind} (h : Lexeme features kind lexeme tail) (hc : c.OnBoundary)
    (hrest : c.rest = lexeme ++ tail) {first : UInt8} (hfirst : c.rest.head? = some first) :
    Classified features c first (emitLexeme features c) := by
  obtain ⟨text, hcut, hbytes, hemit⟩ := h.emitLexeme_eq hc hrest
  have hanswers : Answers features c (.ofKind kind) text (c.offset + lexeme.length)
      (emitLexeme features c) := by
    rw [hemit]
    exact ⟨rfl, hcut, rfl, by rw [hbytes], Cursor.pass_offset c lexeme⟩
  rw [hrest] at hfirst
  cases h with
  | mark hmark =>
    obtain rfl := Option.some.inj hfirst
    exact .mark hmark hanswers
  | @quoted body _ hquoted hbody =>
    obtain rfl := Option.some.inj hfirst
    have hdrop : c.source.bytes.drop (c.offset + 1) = body ++ quoteMark :: tail := by
      rw [drop_succ_offset hrest]
      simp
    have hclose : FirstFrom (· = quoteMark) c.source.bytes (c.offset + 1)
        (c.offset + 1 + body.length) := by
      refine .of_drop hdrop ?_ rfl
      rintro a ha rfl
      exact hbody ha
    have hlen : c.offset + (quoteMark :: (body ++ [quoteMark])).length =
        c.offset + 1 + body.length + 1 := by
      rw [List.length_cons, List.length_append, List.length_singleton]
      omega
    rw [hlen] at hanswers
    exact .quoted hquoted rfl hclose hanswers
  | word hne hword htail hkind =>
    obtain ⟨b, bs, rfl⟩ := List.exists_cons_of_ne_nil hne
    obtain rfl := Option.some.inj hfirst
    have hstart := hword _ List.mem_cons_self
    have hend := wordEnd_of_rest hc hrest (fun a ha => hword a (List.mem_cons_of_mem _ ha)) htail
    have htagged := hkind.tagged
    rw [← hbytes] at htagged
    exact .word (fun kind hmark => hstart (.inl ⟨kind, hmark⟩)) (fun h => hstart (.inr (.inr h)))
      hend hanswers htagged

theorem emitLexeme_classified (hc : c.OnBoundary) (hgap : NoGap features.lineComments c.rest)
    {first : UInt8} (hfirst : c.rest.head? = some first) :
    Classified features c first (emitLexeme features c) := by
  have hne : c.rest ≠ [] := by
    intro hempty
    rw [hempty] at hfirst
    contradiction
  rcases exists_lexeme features hne hgap with
    ⟨kind, lexeme, tail, hrest, hlexeme⟩ | ⟨tail, hrest, hquoted, htail⟩
  · exact hlexeme.classified hc hrest hfirst
  · rw [hrest] at hfirst
    obtain rfl := Option.some.inj hfirst
    refine .unterminated hquoted rfl ?_ (emitLexeme_unterminated hquoted htail hrest)
    refine .of_drop (drop_succ_offset hrest) ?_
    rintro a ha rfl
    exact htail ha

end Classify

/-- Between characters the gap is skipped without fail, and the byte behind it
decides on the answer. -/
theorem emit_classified (features : Features) {c : Cursor} (hc : c.OnBoundary) :
    ∃ g, skipGap features c = .ok g ∧ g.source = c.source ∧
      ∀ first ∈ g.source.bytes[g.offset]?, Classified features g first (emit features c) := by
  obtain ⟨gap, tail, hrest, hskip, hbound, -, hnone⟩ := skipGap_eq features hc
  have htail := Cursor.rest_pass hrest
  refine ⟨c.pass gap, hskip, rfl, ?_⟩
  intro first hfirst
  have hhead : (c.pass gap).rest.head? = some first := by
    rw [Cursor.rest, List.head?_drop]
    exact hfirst
  have hemit : emit features c = emitLexeme features (c.pass gap) := by
    have hmore : ¬ (c.pass gap).atEnd = true := by
      intro hend
      rw [Cursor.atEnd_iff.mp hend] at hhead
      contradiction
    unfold emit
    rw [hskip]
    dsimp only
    rw [if_neg hmore]
  rw [hemit]
  rw [← htail] at hnone
  exact emitLexeme_classified hbound hnone hhead

/-- Behind a character of two bytes, past a comment, in front of a number. -/
def behindAccent : Cursor := ⟨.ofString "é //\n-.5;", ⟨2, 1, 3⟩⟩

/-- The point ends no number, and the semicolon ends the decimal. -/
theorem emit_classified_behindAccent : behindAccent.OnBoundary ∧
    ∃ g, skipGap .all behindAccent = .ok g ∧ g.position = ⟨6, 2, 1⟩ ∧
      Classified .all g minusSign (emit .all behindAccent) ∧
      Answers .all g (.ofKind .decimal) "-.5" 9 (emit .all behindAccent) := by
  have hc : behindAccent.OnBoundary := by decide
  obtain ⟨g, hskip, -, hclassified⟩ := emit_classified .all hc
  have hplace : g = { behindAccent with position := ⟨6, 2, 1⟩ } := by
    cases hskip
    rfl
  subst hplace
  refine ⟨hc, _, hskip, rfl, hclassified minusSign rfl, ?_⟩
  constructor <;> rfl

end Lexing.Brace
