import Lexing.Proofs.Brace.Derivation
import Lexing.Proofs.Brace.Safety
import Lexing.Proofs.Command.Scan

/-! Progress and the end of the input. A scan that is not at the end moves ahead, so
every loop over a tokenizer ends, after at most one item for each byte that is
left; from the end of the input on nothing changes any more. -/

namespace Lexing.Brace

open Tokenizer (Reads collect endsTokens isEnd)

/-- The rounds in which a gap is skipped, without any bound on them: whitespace,
and then a comment or the end. -/
inductive Rounds (features : Features) : Cursor → Nat → Cursor → Prop
  | stop {c} : (features.lineComments = true → atComment c.skipWhitespace = .ok false) →
      Rounds features c 1 c.skipWhitespace
  | comment {c n c'} : features.lineComments = true → atComment c.skipWhitespace = .ok true →
      Rounds features (skipLine c.skipWhitespace) n c' → Rounds features c (n + 1) c'

def Operation.Onward : Operation → Prop
  | push _ => False
  | reset => False
  | _ => True

/-- What is asked of a tokenizer later, without putting tokens back or starting
over. -/
inductive Later : BraceTokenizer → BraceTokenizer → Prop
  | refl {t} : Later t t
  | step {t u} (op : Operation) : Later t u → op.Onward → Later t (op.run u).2

/-- The most items that a reading can take: a pending token, one for each byte that
is left, and the end of the input. -/
def itemLimit (source : Source) (t : BraceTokenizer) : Nat :=
  (source.length - t.cursor.offset) + 1 + if t.pending.isSome then 1 else 0

/-- Everything that is asked of the tokenizer comes to an end. -/
structure Terminating (source : Source) (t : BraceTokenizer) : Prop where
  gap : ∃ n c, Rounds t.grammar t.cursor n c ∧ 2 * n ≤ (source.length - t.cursor.offset) + 2 ∧
    skipGap t.grammar t.cursor = .ok c
  progress : ∀ item u, t.scan = (.ok item, u) → isEnd item = false →
    t.cursor.offset < u.cursor.offset ∧ u.cursor.offset ≤ source.length
  tokens : ∃ items last u, Reads endsTokens t items last u ∧
    items.length + 1 ≤ itemLimit source t ∧ t.tokens = (.ok (collect (items ++ [last])), u)
  items : ∃ items last u, Reads isEnd t items last u ∧
    items.length + 1 ≤ itemLimit source t ∧ t.items = (.ok items, u)
  listing : ∃ items last u, Reads isEnd t items last u ∧ items.length + 1 ≤ itemLimit source t ∧
    Command.scanWithin true t.bound t = .ok (.ok (items ++ [last]))
  ended : ∀ item u, t.pending = none → t.next = (.ok item, u) → isEnd item = true →
    u.cursor.offset = source.length ∧ u.next = (.ok item, u) ∧
      ∀ v, Later u v → v.cursor = u.cursor ∧ v.next = (.ok item, { v with pending := none })
  blank : ∀ features, Gap features.lineComments source.bytes [] →
    ∃ last u, (.ofSource source features : BraceTokenizer).next = (.ok (.ok last), u) ∧
      last.isSentinel = true ∧ last.position.offset = source.length

section Gap

variable {features : Features} {c c' : Cursor} {n : Nat}

theorem Rounds.skipGapWithin_eq (h : Rounds features c n c') {fuel : Nat} (hn : n ≤ fuel) :
    skipGapWithin features fuel c = .ok c' := by
  induction h generalizing fuel with
  | @stop c hstop =>
    obtain ⟨fuel, rfl⟩ : ∃ k, fuel = k + 1 := ⟨fuel - 1, by omega⟩
    unfold skipGapWithin
    dsimp only
    split
    · next hcomments => rw [hstop hcomments]
    · rfl
  | @comment c n c' hcomments hslashes _ ih =>
    obtain ⟨fuel, rfl⟩ : ∃ k, fuel = k + 1 := ⟨fuel - 1, by omega⟩
    unfold skipGapWithin
    dsimp only
    rw [if_pos hcomments, hslashes]
    exact ih (by omega)

/-- A comment is longer than its mark, so there are at most half as many of them
as there are bytes. -/
theorem exists_rounds (features : Features) (hc : c.OnBoundary) :
    ∃ n c', Rounds features c n c' ∧ 2 * n ≤ c.rest.length + 2 := by
  induction hlen : c.rest.length using Nat.strongRecOn generalizing c with
  | ind len ih =>
    obtain ⟨run, tail, hrest, hskip, hrun, -⟩ := skipWhitespace_eq c
    have hbound : c.skipWhitespace.OnBoundary := by
      rw [hskip]
      exact hc.pass_ascii (fun b hb => blank_isAscii (hrun b hb)) hrest
    have hle : c.skipWhitespace.rest.length ≤ len := by
      rw [hskip, Cursor.rest_pass hrest, ← hlen, hrest, List.length_append]
      omega
    by_cases hcomment : features.lineComments = true ∧ [slash, slash] <+: c.skipWhitespace.rest
    · obtain ⟨hcomments, hslashes⟩ := hcomment
      have hat : atComment c.skipWhitespace = .ok true := by
        rw [atComment_eq hbound, decide_eq_true hslashes]
      obtain ⟨body, tail', heq, hline, hend, -, -⟩ := skipComment_eq hbound hslashes
      have hshort : (skipLine c.skipWhitespace).rest.length + 2 ≤ len := by
        rw [hline, Cursor.rest_pass heq]
        rw [heq] at hle
        simp only [List.length_append, List.length_cons] at hle
        omega
      rw [← hline] at hend
      obtain ⟨n, c', hrounds, hn⟩ := ih _ (by omega) hend rfl
      exact ⟨n + 1, c', .comment hcomments hat hrounds, by omega⟩
    · refine ⟨1, _, .stop ?_, by omega⟩
      intro hcomments
      rw [atComment_eq hbound, decide_eq_false fun hslashes => hcomment ⟨hcomments, hslashes⟩]

end Gap

section Reading

variable {source : Source} {t u : BraceTokenizer} {items : List (Item Kinds)} {last : Item Kinds}

/-- A reading that ends at the end of the input takes no more items than its budget. -/
theorem Sound.exists_reads {ends : Item Kinds → Bool}
    (hends : ∀ item, isEnd item = true → ends item = true) (h : Sound source t) :
    ∃ items last u, Reads ends t items last u ∧ items.length ≤ budget t := by
  induction hn : budget t using Nat.strongRecOn generalizing t with
  | ind n ih =>
    obtain ⟨item, t', hnext, hsound, -, hless⟩ := h.next
    by_cases hitem : ends item = true
    · exact ⟨[], item, t', .stop hnext hitem, Nat.zero_le _⟩
    · have hlt : budget t' < n := by
        rcases hless with ⟨token, rfl, hsentinel⟩ | hlt
        · exact absurd (hends (.ok token) hsentinel) hitem
        · omega
      obtain ⟨items, last, u, hreads, hle⟩ := ih _ hlt hsound rfl
      refine ⟨item :: items, last, u, .more hnext (eq_false_of_ne_true hitem) hreads, ?_⟩
      rw [List.length_cons]
      omega

theorem Sound.itemLimit_eq (h : Sound source t) : itemLimit source t = budget t + 1 := by
  have hlen := h.onBoundary.offset_add_length
  rw [h.source_eq] at hlen
  unfold itemLimit budget
  omega

end Reading

section End

variable {source : Source} {token : Token Kinds} {t : BraceTokenizer}

/-- Nothing is left but the end of the input, which may be pending. -/
structure Ended (source : Source) (token : Token Kinds) (t : BraceTokenizer) : Prop where
  sound : Sound source t
  rest : t.cursor.rest = []
  token_eq : token = .sentinel (.ofKind .endOfInput) t.cursor.position
  pending : t.pending = none ∨ t.pending = some token

theorem Ended.next (h : Ended source token t) :
    t.next = (.ok (.ok token), { t with pending := none }) := by
  obtain ⟨c, features, pending⟩ := t
  rcases h.pending with hnone | hsome
  · subst hnone
    rw [h.token_eq]
    exact Tokenizer.next_of_emit (emit_of_gap h.sound.onBoundary h.rest .nil)
  · subst hsome
    rfl

theorem Ended.isSentinel (h : Ended source token t) : token.isSentinel = true := by
  rw [h.token_eq]
  rfl

/-- Whatever is asked at the end of the input, except for putting a token back or
starting over, the end is still there. -/
theorem Ended.run (h : Ended source token t) {op : Operation} (hop : op.Onward) :
    Ended source token (op.run t).2 ∧ (op.run t).2.cursor = t.cursor := by
  have hnone : Ended source token { t with pending := none } :=
    ⟨⟨h.sound.source_eq, h.sound.onBoundary⟩, h.rest, h.token_eq, .inl rfl⟩
  have hheld : Ended source token { t with pending := some token } :=
    ⟨⟨h.sound.source_eq, h.sound.onBoundary⟩, h.rest, h.token_eq, .inr rfl⟩
  have hnext := h.next
  have hlast := h.isSentinel
  cases op with
  | next =>
    have hrun : Operation.next.run t = _ := outcome_of_ok hnext
    rw [hrun]
    exact ⟨hnone, rfl⟩
  | peek =>
    have hrun : Operation.peek.run t = _ := outcome_of_ok (Tokenizer.peek_of_token hnext)
    rw [hrun]
    exact ⟨hheld, rfl⟩
  | nextItem =>
    simp only [Operation.run, Operation.runOver, outcome, Tokenizer.nextItem?, hnext]
    exact ⟨hnone, trivial⟩
  | tokens =>
    simp only [Operation.run, Operation.runOver, outcome, Tokenizer.tokens, Tokenizer.bound,
      Tokenizer.tokensWithin, hnext, hlast, if_true]
    exact ⟨hnone, trivial⟩
  | expect expected =>
    simp only [Operation.run, Operation.runOver, outcome, expect, hnext]
    split
    · exact ⟨hnone, rfl⟩
    · exact ⟨hheld, rfl⟩
  | remainder => exact ⟨h, rfl⟩
  | replace features =>
    exact ⟨⟨⟨h.sound.source_eq, h.sound.onBoundary⟩, h.rest, h.token_eq, h.pending⟩, rfl⟩
  | reset => exact hop.elim
  | push token => exact hop.elim

theorem Ended.later {u v : BraceTokenizer} (h : Ended source token u) (hv : Later u v) :
    Ended source token v ∧ v.cursor = u.cursor := by
  induction hv with
  | refl => exact ⟨h, rfl⟩
  | step op _ hop ih =>
    obtain ⟨hended, hcursor⟩ := ih.1.run hop
    exact ⟨hended, hcursor.trans ih.2⟩

/-- Behind the scan that met the end of the input nothing else is left. -/
theorem Sound.ended (h : Sound source t) {u : BraceTokenizer} {item : Item Kinds}
    (hpending : t.pending = none) (hnext : t.next = (.ok item, u)) (hitem : isEnd item = true) :
    ∃ token, item = .ok token ∧ Ended source token u ∧ u.pending = none := by
  obtain ⟨c, features, pending⟩ := t
  subst hpending
  obtain ⟨bs, tail, item', hrest, hscan, hend, hnext'⟩ := next_eq features h.onBoundary
  rw [hnext'] at hnext
  cases hnext
  cases hscan with
  | stop hgap =>
    exact ⟨_, rfl, ⟨⟨h.source_eq, hend⟩, Cursor.rest_pass hrest, rfl, .inl rfl⟩, rfl⟩
  | item _ _ hlexes =>
    obtain ⟨token, rfl, hsentinel⟩ := Tokenizer.isEnd_eq_true.mp hitem
    rw [hlexes.not_sentinel token rfl] at hsentinel
    contradiction

end End

/-- What is scanned before the end of the input is at least one byte. -/
theorem Sound.progress {source : Source} {t u : BraceTokenizer} {item : Item Kinds}
    (h : Sound source t) (hscan : t.scan = (.ok item, u)) (hitem : isEnd item = false) :
    t.cursor.offset < u.cursor.offset ∧ u.cursor.offset ≤ source.length := by
  obtain ⟨c, features, pending⟩ := t
  obtain ⟨bs, tail, item', hrest, hscans, hend, hemit⟩ := emit_eq features h.onBoundary
  have hgrammar : Grammar.emit features c = _ := hemit
  unfold Tokenizer.scan at hscan
  dsimp only at hscan
  rw [hgrammar] at hscan
  cases hscan
  have hle := hend.le
  rw [Cursor.pass_source, h.source_eq] at hle
  refine ⟨?_, hle⟩
  cases hscans with
  | stop _ => contradiction
  | item _ _ hlexes =>
    have hpos := List.length_pos_iff.mpr hlexes.ne_nil
    simp only [Cursor.pass_offset, List.length_append]
    omega

/-- Whatever was asked before, every loop over the tokenizer ends, and the end of
the input is the end for good. -/
theorem Reached.terminating {source : Source} {t : BraceTokenizer} (h : Reached source t) :
    Terminating source t := by
  have hsound := h.sound
  have hlen := hsound.onBoundary.offset_add_length
  rw [hsound.source_eq] at hlen
  have hlimit := hsound.itemLimit_eq
  have hbound := budget_lt_bound t
  obtain ⟨items, last, u, hreads, hle⟩ := hsound.exists_reads fun item hitem => hitem
  obtain ⟨items', last', u', hreads', hle'⟩ :=
    @Sound.exists_reads source t endsTokens (fun item hitem => by simp [endsTokens, hitem]) hsound
  constructor
  · obtain ⟨n, c, hrounds, hn⟩ := exists_rounds t.grammar hsound.onBoundary
    exact ⟨n, c, hrounds, by omega, hrounds.skipGapWithin_eq (by omega)⟩
  · intro item u hscan hitem
    exact hsound.progress hscan hitem
  · exact ⟨items', last', u', hreads', by omega, hreads'.tokensWithin (by omega)⟩
  · exact ⟨items, last, u, hreads, by omega, hreads.itemsWithin (by omega)⟩
  · exact ⟨items, last, u, hreads, by omega,
      Command.scanWithin_of_reads true hreads (by omega)⟩
  · intro item u hpending hnext hitem
    obtain ⟨token, rfl, hended, hnone⟩ := hsound.ended hpending hnext hitem
    refine ⟨?_, ?_, ?_⟩
    · have hoffset := hended.sound.onBoundary.offset_add_length
      rw [hended.rest, hended.sound.source_eq] at hoffset
      exact hoffset
    · rw [hended.next, ← hnone]
    · intro v hv
      obtain ⟨hlater, hcursor⟩ := hended.later hv
      exact ⟨hcursor, hlater.next⟩
  · intro features hgap
    refine ⟨_, _, Tokenizer.next_of_emit (emit_of_gap source.boundary_zero rfl hgap), rfl, ?_⟩
    show (Position.start.pass source.bytes).offset = source.length
    rw [Position.pass_offset]
    exact Nat.zero_add _

/-- A quote that is alone, a word and a comment that the source ends in. -/
def looseQuote : Source := .ofString "\" x // y"

/-- The quote was taken as an error, and the word was looked at. -/
def wordPending : BraceTokenizer :=
  (Operation.peek.run (Operation.next.run (.ofSource looseQuote .all)).2).2

theorem terminating_wordPending :
    Reached looseQuote wordPending ∧ Terminating looseQuote wordPending := by
  have hquote : Reached looseQuote _ := .step .next (.start .all) trivial
  have hword := hquote.step .peek trivial
  exact ⟨hword, Reached.terminating hword⟩

end Lexing.Brace
