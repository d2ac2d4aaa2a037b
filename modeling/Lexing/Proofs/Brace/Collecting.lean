import Lexing.Proofs.Brace.Quotes
import Lexing.Proofs.Brace.Termination

/-! Collecting tokens and going through items. Both loops take the same items from a
tokenizer. The one that collects stops at the first error; asked again, it collects what is
left, as there is no second error. -/

namespace Lexing.Brace

open Tokenizer (Reads Run collect isEnd endsTokens tokens_or_error)

/-- What the two loops come to, where a run meets these items and then the end of the
input. -/
structure Collects (t : BraceTokenizer) (items : List (Item Kinds)) (last : Token Kinds)
    (u : BraceTokenizer) : Prop where
  items_eq : t.items = (.ok items, u)
  ok_iff : (∃ tokens v, t.tokens = (.ok (.ok tokens), v)) ↔ ∀ item ∈ items, item.isOk = true
  all_tokens : ∀ tokens v, t.tokens = (.ok (.ok tokens), v) →
    tokens.map .ok = items ++ [.ok last] ∧ v = u
  first_error : (¬ ∀ item ∈ items, item.isOk = true) →
    ∃ (front : List (Token Kinds)) (e : LexError) (back : List (Token Kinds)) (v : BraceTokenizer),
      items = front.map .ok ++ .error e :: back.map .ok ∧ t.tokens = (.ok (.error e), v) ∧
        v.items = (.ok (back.map .ok), u) ∧ v.tokens = (.ok (.ok (back ++ [last])), u)

section Sound

variable {source : Source} {t u : BraceTokenizer} {items : List (Item Kinds)}
  {tokens : List (Token Kinds)} {last : Token Kinds} {e : LexError}

theorem Sound.of_reads {ends : Item Kinds → Bool} {item : Item Kinds} (h : Sound source t)
    (hreads : Reads ends t items item u) : ∃ w, Sound source w ∧ w.next = (.ok item, u) := by
  induction hreads with
  | stop hnext _ => exact ⟨_, h, hnext⟩
  | more hnext _ _ ih => exact ih (h.of_next hnext)

/-- Behind an error only tokens are left: the quote that it stands at was the last one. -/
theorem Sound.behind_error {v : BraceTokenizer} (h : Sound source t)
    (hnext : t.next = (.ok (.error e), u)) (hrun : Run u items last v) :
    ∃ tokens : List (Token Kinds), items = tokens.map .ok := by
  obtain ⟨c, features, pending⟩ := t
  cases pending with
  | some token => cases hnext
  | none =>
    obtain ⟨bs, tail, item, hrest, hscan, hend, hnext'⟩ := next_eq features h.onBoundary
    rw [hnext'] at hnext
    cases hnext
    cases hscan with
    | item _ _ hlexes =>
      cases hlexes with
      | unterminated _ htail =>
        obtain ⟨items', hlexed, hrun'⟩ := exists_run features hend
        rw [Cursor.rest_pass hrest] at hlexed
        obtain ⟨rfl, -⟩ := hrun.unique hrun'
        rcases tokens_or_error items with htokens | ⟨front, e, back, rfl⟩
        · exact htokens
        · have hok := (hlexed.of_not_mem htail (.error e) (by simp)).2
          contradiction

theorem Sound.length_lt_bound (h : Sound source t) (hrun : Run t items last u) :
    items.length < t.bound := by
  obtain ⟨items', item, u', hreads, hle⟩ := h.exists_reads fun _ hitem => hitem
  obtain ⟨last', rfl, hrun'⟩ := hreads.run
  obtain ⟨rfl, -⟩ := hrun.unique hrun'
  exact Nat.lt_of_le_of_lt hle (budget_lt_bound t)

theorem Sound.items_eq (h : Sound source t) (hrun : Run t items last u) :
    t.items = (.ok items, u) :=
  hrun.reads.itemsWithin (h.length_lt_bound hrun)

theorem Sound.tokens_eq (h : Sound source t) (hrun : Run t (tokens.map .ok) last u) :
    t.tokens = (.ok (.ok (tokens ++ [last])), u) := by
  have hcollect : collect (tokens.map .ok ++ [.ok last]) = .ok (tokens ++ [last]) := by
    rw [← List.map_singleton, ← List.map_append]
    exact Tokenizer.collect_tokens _
  rw [Tokenizer.tokens, hrun.reads_tokens.tokensWithin (h.length_lt_bound hrun), hcollect]

/-- The first error is the answer, and the run goes on behind it. -/
theorem Sound.tokens_eq_error {back : List (Item Kinds)} (h : Sound source t)
    (hrun : Run t (tokens.map .ok ++ .error e :: back) last u) :
    ∃ v, t.tokens = (.ok (.error e), v) ∧ Sound source v ∧ Run v back last u ∧
      ∃ behind : List (Token Kinds), back = behind.map .ok := by
  obtain ⟨v, hreads, hback⟩ := hrun.reads_error
  obtain ⟨w, hsound, hnext⟩ := h.of_reads hreads
  have hlt := h.length_lt_bound hrun
  have hshort : (tokens.map Except.ok : List (Item Kinds)).length < t.bound := by
    rw [List.length_append] at hlt
    omega
  refine ⟨v, ?_, hsound.of_next hnext, hback, hsound.behind_error hnext hback⟩
  rw [Tokenizer.tokens, hreads.tokensWithin hshort, Tokenizer.collect_error]

end Sound

/-- Whatever was asked before, collecting answers with all items as long as they are
tokens, and otherwise with the first error; the items behind it are collected next. -/
theorem Reached.collects {source : Source} {t : BraceTokenizer} (h : Reached source t) :
    ∃ items last u, Run t items last u ∧ Collects t items last u := by
  have hsound := h.sound
  obtain ⟨items, item, u, hreads, -⟩ := hsound.exists_reads fun _ hitem => hitem
  obtain ⟨last, rfl, hrun⟩ := hreads.run
  refine ⟨items, last, u, hrun, ?_⟩
  have hitems := hsound.items_eq hrun
  rcases tokens_or_error items with ⟨tokens, rfl⟩ | ⟨front, e, back, rfl⟩
  · have htokens := hsound.tokens_eq hrun
    have hall : ∀ item ∈ (tokens.map Except.ok : List (Item Kinds)), item.isOk = true := by
      intro item hitem
      obtain ⟨token, -, rfl⟩ := List.mem_map.mp hitem
      rfl
    refine ⟨hitems, iff_of_true ⟨_, _, htokens⟩ hall, ?_, fun hnone => absurd hall hnone⟩
    intro tokens' v heq
    rw [htokens] at heq
    cases heq
    exact ⟨by simp, rfl⟩
  · obtain ⟨v, htokens, hsound', hrun', behind, rfl⟩ := hsound.tokens_eq_error hrun
    refine ⟨hitems, iff_of_false ?_ ?_, ?_, fun _ => ?_⟩
    · rintro ⟨tokens', v', heq⟩
      rw [htokens] at heq
      cases heq
    · intro hall
      have hok := hall (.error e) (by simp)
      contradiction
    · intro tokens' v' heq
      rw [htokens] at heq
      cases heq
    · exact ⟨front, e, behind, v, rfl, htokens, hsound'.items_eq hrun', hsound'.tokens_eq hrun'⟩

/-- A word, a quote without a partner, and a word on the next line. -/
def quoteBetween : Source := .ofString "é \"\nb"

def firstPending : BraceTokenizer := (Operation.peek.run (.ofSource quoteBetween .all)).2

/-- Collecting stops at the quote; the word behind it is what is collected next. -/
theorem collects_firstPending : Reached quoteBetween firstPending ∧ ∃ last u,
    Run firstPending [.ok ⟨.ofKind .string, some "é", ⟨0, 1, 1⟩⟩,
      .error ⟨.unterminated quoteMark, ⟨3, 1, 4⟩⟩,
      .ok ⟨.ofKind .string, some "b", ⟨5, 2, 1⟩⟩] last u ∧
    Collects firstPending [.ok ⟨.ofKind .string, some "é", ⟨0, 1, 1⟩⟩,
      .error ⟨.unterminated quoteMark, ⟨3, 1, 4⟩⟩,
      .ok ⟨.ofKind .string, some "b", ⟨5, 2, 1⟩⟩] last u := by
  have hpending : Reached quoteBetween firstPending := .step .peek (.start .all) trivial
  obtain ⟨items, last, u, hrun, hcollects⟩ := hpending.collects
  have hitems : Run firstPending [.ok ⟨.ofKind .string, some "é", ⟨0, 1, 1⟩⟩,
      .error ⟨.unterminated quoteMark, ⟨3, 1, 4⟩⟩,
      .ok ⟨.ofKind .string, some "b", ⟨5, 2, 1⟩⟩] _ _ :=
    .item rfl (by rintro _ ⟨⟩; rfl) (.item rfl (by rintro _ ⟨⟩)
      (.item rfl (by rintro _ ⟨⟩; rfl) (.stop rfl rfl)))
  obtain ⟨rfl, -, -⟩ := hrun.unique hitems
  exact ⟨hpending, last, u, hrun, hcollects⟩

end Lexing.Brace
