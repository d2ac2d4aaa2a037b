import Lexing.Brace.Grammar
import Lexing.Proofs.Tokenizer

/-! Putting tokens back. Taking items, looking at the next one and putting the
last one back, in any order, gives the answers of the grammar each once and in
order, and the grammar is asked for no others. -/

namespace Lexing.Pushback

/-- Answers of a grammar, with the grammar and the cursor that it leaves. -/
structure Scanned (γ τ : Type) where
  results : List (Except (Fault τ) (Item τ))
  grammar : γ
  cursor : Cursor

inductive Operation (τ : Type)
  | next
  | peek
  | push (token : Token τ)

/-- A tokenizer with the log of what was taken from it. -/
structure History (γ τ : Type) where
  tokenizer : Tokenizer γ τ
  log : List (Except (Fault τ) (Item τ))

/-- A grammar that counts how often it is asked. -/
structure Metered (γ : Type) where
  grammar : γ
  calls : Nat

variable {γ τ : Type}

namespace History

def start (source : Source) (grammar : γ) : History γ τ := ⟨.ofSource source grammar, []⟩

/-- The pending token, as an answer that is still to be taken. -/
def held (h : History γ τ) : List (Except (Fault τ) (Item τ)) :=
  h.tokenizer.pending.toList.map fun token => .ok (.ok token)

/-- Only the token that was taken last is put back, while none is pending. -/
def Allowed (h : History γ τ) : Operation τ → Prop
  | .push token => h.tokenizer.pending = none ∧ h.log.getLast? = some (.ok (.ok token))
  | _ => True

def calls (m : History (Metered γ) τ) : Nat := m.tokenizer.grammar.calls

variable [Grammar γ τ]

/-- The log takes in every answer of `next`, and those of `peek` that are no
token. A token that is put back is taken out again. -/
def perform (h : History γ τ) : Operation τ → Except (Fault τ) (History γ τ)
  | .next => .ok ⟨h.tokenizer.next.2, h.log ++ [h.tokenizer.next.1]⟩
  | .peek =>
      match h.tokenizer.peek with
      | (.ok (.ok _), t) => .ok ⟨t, h.log⟩
      | (answer, t) => .ok ⟨t, h.log ++ [answer]⟩
  | .push token => (h.tokenizer.push token).map fun t => ⟨t, h.log.dropLast⟩

end History

section Grammar

variable [Grammar γ τ]

/-- The first answers of a grammar that is asked again and again over a source. -/
def scanned (source : Source) (grammar : γ) : Nat → Scanned γ τ
  | 0 => ⟨[], grammar, .ofSource source⟩
  | k + 1 =>
      let s := scanned source grammar k
      let e := Grammar.emit s.grammar s.cursor
      ⟨s.results ++ [e.result.mapError .misuse], e.grammar, e.cursor⟩

instance : Grammar (Metered γ) τ where
  emit m c :=
    let e := Grammar.emit m.grammar c
    ⟨e.result, ⟨e.grammar, m.calls + 1⟩, e.cursor⟩

/-- Looking at a token leaves the log alone; any other answer is logged. -/
theorem perform_peek (h : History γ τ) :
    (∃ token t, h.tokenizer.next = (.ok (.ok token), t) ∧
      h.perform .peek = .ok ⟨{ t with pending := some token }, h.log⟩) ∨
    h.perform .peek = h.perform .next := by
  simp only [History.perform]
  rcases h.tokenizer.peek_cases with ⟨token, t, hnext, hpeek⟩ | ⟨hnone, hpeek⟩
  · rw [hpeek]
    exact .inl ⟨token, t, hnext, rfl⟩
  · right
    rw [hpeek]
    split
    · next token t heq =>
      rw [heq] at hnone
      exact absurd rfl (hnone token)
    · next answer t _ heq =>
      rw [heq]

/-- What was taken and what is pending are the answers that the grammar was asked
for, and it was left as it is now. -/
structure Tracks (source : Source) (grammar : γ) (m : History (Metered γ) τ) : Prop where
  results_eq : m.log ++ m.held = (scanned source grammar m.calls).results
  grammar_eq : m.tokenizer.grammar.grammar = (scanned source grammar m.calls).grammar
  cursor_eq : m.tokenizer.cursor = (scanned source grammar m.calls).cursor

variable {source : Source} {grammar : γ} {m m' : History (Metered γ) τ}

theorem Tracks.start (source : Source) (grammar : γ) :
    Tracks source grammar (.start source ⟨grammar, 0⟩) := ⟨rfl, rfl, rfl⟩

/-- Taking an item moves the pending token to the log, or asks for one answer more. -/
theorem Tracks.next (h : Tracks source grammar m) :
    Tracks source grammar ⟨m.tokenizer.next.2, m.log ++ [m.tokenizer.next.1]⟩ := by
  obtain ⟨⟨c, ⟨g, calls⟩, pending⟩, log⟩ := m
  cases pending with
  | some token =>
    have hlog : log ++ [.ok (.ok token)] = (scanned source grammar calls).results := h.results_eq
    exact ⟨(List.append_nil _).trans hlog, h.grammar_eq, h.cursor_eq⟩
  | none =>
    have hlog : log ++ [] = (scanned source grammar calls).results := h.results_eq
    have hg : g = (scanned source grammar calls).grammar := h.grammar_eq
    have hc : c = (scanned source grammar calls).cursor := h.cursor_eq
    rw [List.append_nil] at hlog
    subst hlog hg hc
    exact ⟨List.append_nil _, rfl, rfl⟩

theorem Tracks.hold {t : Tokenizer (Metered γ) τ} {log : List (Except (Fault τ) (Item τ))}
    {token : Token τ} (h : Tracks source grammar ⟨t, log ++ [.ok (.ok token)]⟩)
    (hpending : t.pending = none) :
    Tracks source grammar ⟨{ t with pending := some token }, log⟩ := by
  have hresults := h.results_eq
  rw [History.held, hpending] at hresults
  exact ⟨(List.append_nil _).symm.trans hresults, h.grammar_eq, h.cursor_eq⟩

theorem Tracks.perform (h : Tracks source grammar m) {op : Operation τ} (hop : m.Allowed op)
    (hm : m.perform op = .ok m') : Tracks source grammar m' := by
  cases op with
  | next =>
    cases hm
    exact h.next
  | peek =>
    rcases perform_peek m with ⟨token, t, hnext, hpeek⟩ | hpeek
    · rw [hpeek] at hm
      cases hm
      have hpending := m.tokenizer.next_pending
      have htaken := h.next
      rw [hnext] at hpending htaken
      exact htaken.hold hpending
    · rw [hpeek] at hm
      cases hm
      exact h.next
  | push token =>
    obtain ⟨hpending, hlast⟩ := hop
    obtain ⟨log, hlog⟩ := List.getLast?_eq_some_iff.mp hlast
    rw [History.perform, Tokenizer.push_of_none hpending] at hm
    cases hm
    rw [hlog, List.dropLast_concat]
    refine Tracks.hold ?_ hpending
    rw [← hlog]
    exact h

end Grammar

end Lexing.Pushback
