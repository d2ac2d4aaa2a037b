import Lexing.Tokenizer

/-! What a tokenizer does with the place for a token that was put back, and its
runs: items are taken one after another until the end of the input is met. -/

namespace Lexing.Tokenizer

variable {γ τ : Type}

theorem push_of_none {t : Tokenizer γ τ} (h : t.pending = none) (token : Token τ) :
    t.push token = .ok { t with pending := some token } := by
  rw [push, h]

theorem cursor_of_push {t t' : Tokenizer γ τ} {token : Token τ} (h : t.push token = .ok t') :
    t'.cursor = t.cursor := by
  unfold push at h
  split at h
  · contradiction
  · cases h
    rfl

variable [Grammar γ τ]

theorem scan_eq_ok {t : Tokenizer γ τ} {item : Item τ} :
    t.scan.1 = .ok item ↔ (Grammar.emit t.grammar t.cursor).result = .ok item := by
  unfold scan
  dsimp only
  cases (Grammar.emit t.grammar t.cursor).result with
  | ok item' => exact ⟨fun h => by cases h; rfl, fun h => by cases h; rfl⟩
  | error misuse => exact ⟨fun h => by contradiction, fun h => by contradiction⟩

theorem next_of_emit {c c' : Cursor} {g g' : γ} {item : Item τ}
    (h : Grammar.emit g c = ⟨.ok item, g', c'⟩) :
    (⟨c, g, none⟩ : Tokenizer γ τ).next = (.ok item, ⟨c', g', none⟩) := by
  unfold next scan
  dsimp only
  rw [h]
  rfl

theorem next_pending (t : Tokenizer γ τ) : t.next.2.pending = none := by
  obtain ⟨c, grammar, pending⟩ := t
  cases pending with
  | none => rfl
  | some token => rfl

theorem peek_of_token {t t' : Tokenizer γ τ} {token : Token τ}
    (h : t.next = (.ok (.ok token), t')) :
    t.peek = (.ok (.ok token), { t' with pending := some token }) := by
  have hpending := t.next_pending
  rw [h] at hpending
  rw [peek, h]
  dsimp only
  rw [push_of_none hpending]

/-- A token that was looked at is still the next one. -/
theorem next_of_peek {t t' : Tokenizer γ τ} {token : Token τ}
    (h : t.next = (.ok (.ok token), t')) : t.peek.2.next = (.ok (.ok token), t') := by
  have hpending := t.next_pending
  rw [h] at hpending
  obtain ⟨c, grammar, pending⟩ := t'
  obtain rfl : pending = none := hpending
  rw [peek_of_token h]
  rfl

theorem peek_of_peek {t t' : Tokenizer γ τ} {token : Token τ}
    (h : t.next = (.ok (.ok token), t')) : t.peek.2.peek = t.peek := by
  rw [peek_of_token (next_of_peek h), peek_of_token h]

theorem peek_of_no_token {t : Tokenizer γ τ} (h : ∀ token, t.next.1 ≠ .ok (.ok token)) :
    t.peek = t.next := by
  rw [peek]
  split
  · next token t' hnext =>
    rw [hnext] at h
    exact absurd rfl (h token)
  · rfl

/-- Looking at a token is taking it and putting it back; any other answer is
taken. -/
theorem peek_cases (t : Tokenizer γ τ) :
    (∃ token t', t.next = (.ok (.ok token), t') ∧
      t.peek = (.ok (.ok token), { t' with pending := some token })) ∨
    (∀ token, t.next.1 ≠ .ok (.ok token)) ∧ t.peek = t.next := by
  by_cases htoken : ∃ token, t.next.1 = .ok (.ok token)
  · obtain ⟨token, htoken⟩ := htoken
    have hnext : t.next = (.ok (.ok token), t.next.2) := by rw [← htoken]
    exact .inl ⟨token, _, hnext, peek_of_token hnext⟩
  · have hnone := not_exists.mp htoken
    exact .inr ⟨hnone, peek_of_no_token hnone⟩

/-- The items up to the token for the end of the input, that token, and the
tokenizer that is left. Errors are items, and no fault is met. -/
inductive Run : Tokenizer γ τ → List (Item τ) → Token τ → Tokenizer γ τ → Prop
  | stop {t last u} : t.next = (.ok (.ok last), u) → last.isSentinel = true → Run t [] last u
  | item {t item t' items last u} : t.next = (.ok item, t') →
      (∀ token, item = .ok token → token.isSentinel = false) →
      Run t' items last u → Run t (item :: items) last u

theorem Run.unique {t u u' : Tokenizer γ τ} {items items' : List (Item τ)} {last last' : Token τ}
    (h : Run t items last u) (h' : Run t items' last' u') :
    items = items' ∧ last = last' ∧ u = u' := by
  induction h generalizing items' with
  | stop hnext hlast =>
    cases h' with
    | stop hnext' _ =>
      rw [hnext] at hnext'
      cases hnext'
      exact ⟨rfl, rfl, rfl⟩
    | item hnext' hmore _ =>
      rw [hnext] at hnext'
      cases hnext'
      rw [hmore _ rfl] at hlast
      contradiction
  | item hnext hmore _ ih =>
    cases h' with
    | stop hnext' hlast' =>
      rw [hnext] at hnext'
      cases hnext'
      rw [hmore _ rfl] at hlast'
      contradiction
    | item hnext' _ hrun' =>
      rw [hnext] at hnext'
      cases hnext'
      obtain ⟨rfl, hrest⟩ := ih hrun'
      exact ⟨rfl, hrest⟩

end Lexing.Tokenizer
