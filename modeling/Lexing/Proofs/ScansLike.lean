import Lexing.Proofs.Tokenizer

/-! Grammars that scan alike. Where one grammar is the image of another and answers like it
at each cursor with a property that scans keep, a tokenizer over the one does whatever a
tokenizer over the other does. -/

namespace Lexing

variable {γ γ' τ : Type}

def Emission.mapGrammar (f : γ → γ') (e : Emission γ τ) : Emission γ' τ :=
  ⟨e.result, f e.grammar, e.cursor⟩

def Tokenizer.mapGrammar (f : γ → γ') (t : Tokenizer γ τ) : Tokenizer γ' τ :=
  ⟨t.cursor, f t.grammar, t.pending⟩

/-- At the cursors with the property, the images of grammars answer like the grammars. -/
structure ScansLike [Grammar γ τ] [Grammar γ' τ] (f : γ → γ') (P : Cursor → Prop) : Prop where
  emit_eq : ∀ (g : γ) c, P c → Grammar.emit (f g) c = (Grammar.emit g c).mapGrammar f
  emit_cursor : ∀ (g : γ) c, P c → P (Grammar.emit g c).cursor

namespace ScansLike

open Tokenizer (mapGrammar)

theorem push_mapGrammar (f : γ → γ') (t : Tokenizer γ τ) (token : Token τ) :
    (t.mapGrammar f).push token = (t.push token).map (mapGrammar f) := by
  obtain ⟨c, g, pending⟩ := t
  cases pending <;> rfl

variable [Grammar γ τ] [Grammar γ' τ] {f : γ → γ'} {P : Cursor → Prop} {t : Tokenizer γ τ}

theorem next_eq (h : ScansLike f P) (ht : P t.cursor) :
    (t.mapGrammar f).next = t.next.map id (mapGrammar f) := by
  obtain ⟨c, g, pending⟩ := t
  cases pending with
  | some token => rfl
  | none =>
    have hemit := h.emit_eq g c ht
    simp only [Tokenizer.next, mapGrammar, Tokenizer.scan, hemit]
    rfl

theorem next_cursor (h : ScansLike f P) (ht : P t.cursor) : P t.next.2.cursor := by
  obtain ⟨c, g, pending⟩ := t
  cases pending with
  | some token => exact ht
  | none => exact h.emit_cursor g c ht

/-- Only the tokenizer that is left tells two like ones apart. -/
theorem next_of_next (h : ScansLike f P) (ht : P t.cursor) {answer u}
    (hnext : t.next = (answer, u)) : (t.mapGrammar f).next = (answer, u.mapGrammar f) := by
  rw [h.next_eq ht, hnext]
  rfl

theorem peek_eq (h : ScansLike f P) (ht : P t.cursor) :
    (t.mapGrammar f).peek = t.peek.map id (mapGrammar f) := by
  rcases t.peek_cases with ⟨token, u, hnext, hpeek⟩ | ⟨hnone, hpeek⟩
  · rw [hpeek, Tokenizer.peek_of_token (h.next_of_next ht hnext)]
    rfl
  · have hnext := h.next_eq ht
    rw [hpeek, Tokenizer.peek_of_no_token, hnext]
    rw [hnext]
    exact hnone

theorem nextItem?_eq (h : ScansLike f P) (ht : P t.cursor) :
    (t.mapGrammar f).nextItem? = t.nextItem?.map id (mapGrammar f) := by
  rw [Tokenizer.nextItem?, Tokenizer.nextItem?, h.next_eq ht]
  rcases t.next with ⟨_ | _ | _, u⟩ <;> rfl

theorem tokensWithin_eq (h : ScansLike f P) (n : Nat) (ht : P t.cursor) :
    Tokenizer.tokensWithin n (t.mapGrammar f) =
      (Tokenizer.tokensWithin n t).map id (mapGrammar f) := by
  induction n generalizing t with
  | zero => rfl
  | succ n ih =>
    have hcursor := h.next_cursor ht
    rw [Tokenizer.tokensWithin, Tokenizer.tokensWithin, h.next_eq ht]
    rcases hnext : t.next with ⟨fault | e | token, u⟩
    · rfl
    · rfl
    · rw [hnext] at hcursor
      simp only [Prod.map, id]
      split
      · rfl
      · rw [ih hcursor]
        rfl

theorem tokens_eq (h : ScansLike f P) (ht : P t.cursor) :
    (t.mapGrammar f).tokens = t.tokens.map id (mapGrammar f) :=
  h.tokensWithin_eq _ ht

end ScansLike

end Lexing
