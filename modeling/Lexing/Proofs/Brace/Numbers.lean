import Lexing.Proofs.Brace.Classification
import Lexing.Proofs.Brace.Safety
import Lexing.Proofs.Conversion

/-! Tags and numbers. A scan tells a number by its place in the source and up to the
next delimiter, a conversion by the text alone; both find the same numbers. -/

namespace Lexing.Brace

/-- The tag of a token tells which of its conversions give a number, and what is
wrong with the others is that the text is none. -/
structure NumberTagged (token : Token Kinds) : Prop where
  float_iff : ∀ format, (∃ bits, token.toFloat format = .ok bits) ↔
    token.tag = .ofKind .integer ∨ token.tag = .ofKind .decimal
  float_error : ∀ format e, token.toFloat format = .error e →
    e = .malformed token.data .decimal token.position
  integer_iff : ∀ type, token.toInteger type =
      .error (.malformed token.data .integer token.position) ↔ token.tag ≠ .ofKind .integer
  integer_error : ∀ type text expected place,
    token.toInteger type = .error (.malformed text expected place) →
      text = token.data ∧ expected = .integer ∧ place = token.position

section Lexeme

variable {features : Features} {kind : Kind} {lexeme tail : List UInt8}

/-- A lexeme is a word of its kind, or holds a delimiter and is no number. -/
theorem Lexeme.word_or_delimiter (h : Lexeme features kind lexeme tail) :
    WordKind lexeme kind ∨
      (∃ b ∈ lexeme, b ∈ delimiters features) ∧
        Kinds.ofKind kind ≠ .ofKind .integer ∧ Kinds.ofKind kind ≠ .ofKind .decimal := by
  cases h with
  | @mark b _ _ hmark =>
    right
    refine ⟨⟨b, List.mem_cons_self, mem_delimiters.mpr (.inl ⟨kind, hmark⟩)⟩, ?_⟩
    cases hmark <;> decide
  | quoted hquoted _ =>
    right
    refine ⟨⟨quoteMark, List.mem_cons_self, mem_delimiters.mpr (.inr (.inr ⟨hquoted, rfl⟩))⟩, ?_⟩
    decide
  | word _ _ _ hkind => exact .inl hkind

/-- A lexeme is written as its tag says: a number holds no delimiter. -/
theorem Lexeme.written_iff (h : Lexeme features kind lexeme tail) :
    (IsInteger lexeme ↔ Kinds.ofKind kind = .ofKind .integer) ∧
      (IsDecimal lexeme ↔ Kinds.ofKind kind = .ofKind .decimal) := by
  rcases h.word_or_delimiter with hkind | ⟨⟨b, hb, hstop⟩, hint, hdec⟩
  · exact ⟨hkind.tagged.integer.symm, hkind.tagged.decimal.symm⟩
  · have hfree := numberFree_delimiters features
    constructor
    · exact iff_of_false (fun hwritten => hwritten.not_mem hfree b hb hstop) hint
    · exact iff_of_false (fun hwritten => hwritten.not_mem hfree b hb hstop) hdec

end Lexeme

/-- A token whose tag says how it is written is converted by its tag. -/
theorem numberTagged_of_written {token : Token Kinds}
    (hint : IsInteger token.bytes ↔ token.tag = .ofKind .integer)
    (hdec : IsDecimal token.bytes ↔ token.tag = .ofKind .decimal) : NumberTagged token := by
  constructor
  · intro format
    rw [← hint, ← hdec]
    exact Token.toFloat_eq_ok_iff
  · exact fun _ _ => Token.toFloat_eq_error
  · intro type
    rw [Token.toInteger_eq_malformed_iff, hint]
    exact and_iff_left ⟨rfl, rfl, rfl⟩
  · intro type text expected place he
    exact (Token.toInteger_eq_malformed_iff.mp he).2

theorem Lexes.numberTagged {features : Features} {p : Position} {lexeme tail : List UInt8}
    {token : Token Kinds} (h : Lexes features p lexeme tail (.ok token)) : NumberTagged token := by
  have hbytes := h.bytes_eq
  cases h with
  | token hlexeme _ =>
    obtain ⟨hint, hdec⟩ := hlexeme.written_iff
    apply numberTagged_of_written
    · rw [hbytes]
      exact hint
    · rw [hbytes]
      exact hdec

theorem sentinel_numberTagged (p : Position) :
    NumberTagged (.sentinel (.ofKind .endOfInput) p) := by
  apply numberTagged_of_written
  · refine iff_of_false (fun hint => hint.ne_nil rfl) ?_
    exact fun htag => absurd (Kinds.ofKind_inj.mp htag) (by decide)
  · refine iff_of_false (fun hdec => hdec.ne_nil rfl) ?_
    exact fun htag => absurd (Kinds.ofKind_inj.mp htag) (by decide)

/-- Whatever was asked of a tokenizer before, the token that it scans is tagged as a
number exactly if its text is converted to one. -/
theorem scan_numberTagged {source : Source} {t : BraceTokenizer} (h : Reached source t)
    {token : Token Kinds} (hscan : t.scan.1 = .ok (.ok token)) : NumberTagged token := by
  obtain ⟨bs, tail, item, -, hscans, -, hemit⟩ := emit_eq t.grammar h.sound.onBoundary
  have hresult : (emit t.grammar t.cursor).result = .ok (.ok token) :=
    Tokenizer.scan_eq_ok.mp hscan
  rw [hemit] at hresult
  cases hresult
  cases hscans with
  | stop _ => exact sentinel_numberTagged _
  | item _ _ hlexes => exact hlexes.numberTagged

/-- A digit between quotes, and a decimal without digits in front of its point. -/
def quotedDigit : Source := .ofString "\"7\" -.5"

/-- The string is no number, although there is one between its quotes. -/
theorem scan_numberTagged_quotedDigit : ∃ t u : BraceTokenizer,
    (Reached quotedDigit t ∧ t.scan.1 = .ok (.ok ⟨.ofKind .quoted, some "\"7\"", ⟨0, 1, 1⟩⟩) ∧
      NumberTagged ⟨.ofKind .quoted, some "\"7\"", ⟨0, 1, 1⟩⟩) ∧
    Reached quotedDigit u ∧ u.scan.1 = .ok (.ok ⟨.ofKind .decimal, some "-.5", ⟨4, 1, 5⟩⟩) ∧
      NumberTagged ⟨.ofKind .decimal, some "-.5", ⟨4, 1, 5⟩⟩ := by
  have hstart : Reached quotedDigit _ := .start .all
  have hbehind := hstart.step .next trivial
  exact ⟨_, _, ⟨hstart, rfl, scan_numberTagged hstart rfl⟩, hbehind, rfl,
    scan_numberTagged hbehind rfl⟩

end Lexing.Brace
