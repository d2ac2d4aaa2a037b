import Lexing.Brace.Expect
import Lexing.Proofs.Brace.Quotes
import Lexing.Proofs.Brace.Safety

/-! Quoted strings. Whatever a text without quotes is made of, between quotes it is scanned as
one token, and the token gives it back. Any other token that is scanned gives nothing. -/

namespace Lexing.Brace

def inQuotes (content : String) : String := "\"" ++ content ++ "\""

/-- A token that a scan answers with has a content if it is a quoted string, and else none:
without quoted strings, quotes at both ends of a word do not count. -/
structure Content (features : Features) (token : Token Kinds) : Prop where
  quoted : token.tag = .ofKind .quoted → ∃ content, quotedContent? token = some content ∧
    token.text = some (inQuotes content) ∧ '"' ∉ content.toList
  other : token.tag ≠ .ofKind .quoted → quotedContent? token = none
  off : features.quotedStrings = false → quotedContent? token = none

@[simp] theorem toList_inQuotes (content : String) :
    (inQuotes content).toList = '"' :: (content.toList ++ ['"']) := by
  simp [inQuotes]

theorem encode_inQuotes (content : String) : encode (inQuotes content).toList =
    quoteMark :: (encode content.toList ++ [quoteMark]) := by
  rw [toList_inQuotes, encode_cons, encode_append]
  rfl

theorem quoteMark_mem_encode {cs : List Char} : quoteMark ∈ encode cs ↔ '"' ∈ cs :=
  mem_encode_iff rfl rfl

theorem unquote?_eq_some_iff {cs body : List Char} :
    unquote? cs = some body ↔ cs = '"' :: (body ++ ['"']) := by
  constructor
  · intro h
    unfold unquote? at h
    split at h
    · next rest =>
      split at h
      · next hlast =>
        obtain ⟨inner, rfl⟩ := List.getLast?_eq_some_iff.mp hlast
        rw [List.dropLast_concat] at h
        rw [Option.some.inj h]
      · contradiction
    · contradiction
  · rintro rfl
    simp [unquote?]

theorem quotedContent?_eq_some_iff {token : Token Kinds} {content : String} :
    quotedContent? token = some content ↔
      token.tag = .ofKind .quoted ∧ token.data = inQuotes content := by
  unfold quotedContent?
  split
  · next htag =>
    rw [Option.map_eq_some_iff]
    constructor
    · rintro ⟨body, hbody, rfl⟩
      refine ⟨htag, String.toList_injective ?_⟩
      rw [unquote?_eq_some_iff.mp hbody, toList_inQuotes, String.toList_ofList]
    · rintro ⟨-, hdata⟩
      refine ⟨content.toList, unquote?_eq_some_iff.mpr ?_, String.ofList_toList⟩
      rw [hdata, toList_inQuotes]
  · next htag => simp [htag]

theorem Content.of_tag_ne {features : Features} {token : Token Kinds}
    (h : token.tag ≠ .ofKind .quoted) : Content features token := by
  have hnone : quotedContent? token = none := if_neg h
  exact ⟨fun htag => absurd htag h, fun _ => hnone, fun _ => hnone⟩

section Lexeme

variable {features : Features} {kind : Kind} {lexeme tail : List UInt8}

theorem Lexeme.quoted_or_ne (h : Lexeme features kind lexeme tail) :
    kind ≠ .quoted ∨ kind = .quoted ∧ features.quotedStrings = true ∧
      ∃ body, lexeme = quoteMark :: (body ++ [quoteMark]) ∧ quoteMark ∉ body := by
  cases h with
  | mark hmark => exact .inl (by cases hmark <;> decide)
  | quoted hquoted hbody => exact .inr ⟨rfl, hquoted, _, rfl, hbody⟩
  | word _ _ _ hkind => exact .inl hkind.ne_quoted

/-- The bytes between two quotes are a text as well. -/
theorem exists_inQuotes {text : String} {body : List UInt8}
    (h : encode text.toList = quoteMark :: (body ++ [quoteMark])) :
    ∃ content, text = inQuotes content ∧ encode content.toList = body := by
  obtain ⟨back, htext, hback⟩ := (@encode_eq_char_cons '"' quoteMark rfl rfl _ _).mp h
  obtain ⟨inner, behind, rfl, hinner, hbehind⟩ :=
    (@encode_eq_append_char '"' quoteMark rfl rfl back body []).mp hback
  obtain rfl : behind = [] := encode_injective hbehind
  refine ⟨String.ofList inner, String.toList_injective ?_, ?_⟩
  · rw [htext, toList_inQuotes, String.toList_ofList]
  · rw [String.toList_ofList, hinner]

theorem Lexes.content {p : Position} {token : Token Kinds}
    (h : Lexes features p lexeme tail (.ok token)) : Content features token := by
  cases h with
  | @token kind _ _ text hlexeme hbytes =>
    rcases hlexeme.quoted_or_ne with hkind | ⟨rfl, hquoted, body, rfl, hbody⟩
    · exact .of_tag_ne fun htag => hkind (Kinds.ofKind_inj.mp htag)
    · obtain ⟨content, rfl, rfl⟩ := exists_inQuotes hbytes
      refine ⟨fun _ => ⟨content, ?_, rfl, ?_⟩, fun htag => absurd rfl htag, fun hoff => ?_⟩
      · exact quotedContent?_eq_some_iff.mpr ⟨rfl, rfl⟩
      · exact fun hmem => hbody (quoteMark_mem_encode.mpr hmem)
      · rw [hquoted] at hoff
        contradiction

/-- Between quotes any bytes are one lexeme, and nothing is left behind it. -/
theorem lexed_inQuotes (comments : Bool) {content : String} (h : '"' ∉ content.toList) :
    Lexed ⟨comments, true⟩ .start (encode (inQuotes content).toList)
      [.ok ⟨.ofKind .quoted, some (inQuotes content), .start⟩] := by
  have hbody : quoteMark ∉ encode content.toList := fun hmem => h (quoteMark_mem_encode.mp hmem)
  have hbytes := encode_inQuotes content
  have hlexes : Lexes ⟨comments, true⟩ .start (encode (inQuotes content).toList) []
      (.ok ⟨.ofKind .quoted, some (inQuotes content), .start⟩) := by
    refine .token ?_ rfl
    rw [hbytes]
    exact .quoted rfl hbody
  have hnone : NoGap comments (encode (inQuotes content).toList ++ []) := by
    rw [hbytes]
    constructor
    · rintro b ⟨⟩
      decide
    · rintro - ⟨rest, hrest⟩
      exact absurd (List.cons.inj hrest).1 (by decide)
  have hlexed := Lexed.item .nil hnone hlexes (.stop .nil)
  rwa [List.nil_append, List.append_nil] at hlexed

end Lexeme

/-- Putting a text in quotes and scanning it gives the text back; the other way round, what
a scanned token gives is what its text has between quotes. -/
theorem quoted_roundTrip :
    (∀ (content : String) (comments : Bool), '"' ∉ content.toList → ∃ u,
      Tokenizer.Run (.ofSource (.ofString (inQuotes content)) ⟨comments, true⟩ : BraceTokenizer)
        [.ok ⟨.ofKind .quoted, some (inQuotes content), .start⟩]
        (.sentinel (.ofKind .endOfInput)
          (Position.start.pass (encode (inQuotes content).toList))) u ∧
      quotedContent? ⟨.ofKind .quoted, some (inQuotes content), .start⟩ = some content) ∧
    ∀ (source : Source) (t : BraceTokenizer) (token : Token Kinds), Reached source t →
      t.scan.1 = .ok (.ok token) → Content t.grammar token := by
  constructor
  · intro content comments h
    refine ⟨_, (lexed_inQuotes comments h).run (Cursor.ofSource_onBoundary _) rfl rfl, ?_⟩
    exact quotedContent?_eq_some_iff.mpr ⟨rfl, rfl⟩
  · intro source t token ht hscan
    obtain ⟨bs, tail, item, -, hscans, -, hemit⟩ := emit_eq t.grammar ht.sound.onBoundary
    have hresult : (emit t.grammar t.cursor).result = .ok (.ok token) :=
      Tokenizer.scan_eq_ok.mp hscan
    rw [hemit] at hresult
    cases hresult
    cases hscans with
    | stop _ => exact .of_tag_ne fun htag => absurd (Kinds.ofKind_inj.mp htag) (by decide)
    | item _ _ hlexes => exact hlexes.content

/-- A line break, a comment mark and delimiters between quotes; and a word with quotes at
both ends, where quotes are parts of words. -/
theorem quoted_roundTrip_delimiters :
    (∃ u, Tokenizer.Run (.ofSource (.ofString "\"// é;\n=\"") .all : BraceTokenizer)
      [.ok ⟨.ofKind .quoted, some "\"// é;\n=\"", .start⟩]
      (.sentinel (.ofKind .endOfInput) ⟨10, 2, 3⟩) u ∧
      quotedContent? ⟨.ofKind .quoted, some "\"// é;\n=\"", .start⟩ = some "// é;\n=") ∧
    ∃ t : BraceTokenizer, Reached (.ofString "\"a\"") t ∧ t.grammar = .plain ∧
      t.scan.1 = .ok (.ok ⟨.ofKind .string, some "\"a\"", .start⟩) ∧
      Content .plain ⟨.ofKind .string, some "\"a\"", .start⟩ := by
  refine ⟨?_, ?_⟩
  · obtain ⟨u, hrun, hcontent⟩ := quoted_roundTrip.1 "// é;\n=" true (by decide)
    exact ⟨u, hrun, hcontent⟩
  · have hplain : Reached (.ofString "\"a\"") _ := .start .plain
    exact ⟨_, hplain, rfl, rfl, quoted_roundTrip.2 _ _ _ hplain rfl⟩

end Lexing.Brace
