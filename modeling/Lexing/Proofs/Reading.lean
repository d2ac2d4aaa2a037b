import Lexing.Proofs.Tokenizer

/-! Reading a tokenizer in a loop. A reading goes on until an item ends it, and the
loops with fuel are such readings as soon as they have fuel enough. -/

namespace Lexing.Tokenizer

variable {γ τ : Type}

def isEnd : Item τ → Bool
  | .ok token => token.isSentinel
  | .error _ => false

def endsTokens (item : Item τ) : Bool := isEnd item || !item.isOk

@[simp] theorem endsTokens_ok (token : Token τ) :
    endsTokens (.ok token) = token.isSentinel := by
  simp [endsTokens, isEnd, Except.isOk, Except.toBool]

/-- All tokens, or else the first error. -/
def collect : List (Item τ) → Except LexError (List (Token τ))
  | [] => .ok []
  | .ok token :: items => (collect items).map (token :: ·)
  | .error e :: _ => .error e

theorem collect_tokens (tokens : List (Token τ)) : collect (tokens.map .ok) = .ok tokens := by
  induction tokens with
  | nil => rfl
  | cons token tokens ih => simp [collect, ih, Except.map]

theorem collect_error (tokens : List (Token τ)) (e : LexError) (back : List (Item τ)) :
    collect (tokens.map .ok ++ .error e :: back) = .error e := by
  induction tokens with
  | nil => rfl
  | cons token tokens ih => simp [collect, ih, Except.map]

/-- Items are tokens only, or tokens up to a first error. -/
theorem tokens_or_error (items : List (Item τ)) :
    (∃ tokens : List (Token τ), items = tokens.map .ok) ∨
      ∃ (tokens : List (Token τ)) (e : LexError) (back : List (Item τ)),
        items = tokens.map .ok ++ .error e :: back := by
  induction items with
  | nil => exact .inl ⟨[], rfl⟩
  | cons item items ih =>
    cases item with
    | error e => exact .inr ⟨[], e, items, rfl⟩
    | ok token =>
      rcases ih with ⟨tokens, rfl⟩ | ⟨tokens, e, back, rfl⟩
      · exact .inl ⟨token :: tokens, rfl⟩
      · exact .inr ⟨token :: tokens, e, back, rfl⟩

variable [Grammar γ τ]

/-- Items are taken one after another up to the first that ends the reading: the
items before it, that item, and the tokenizer that is left. -/
inductive Reads (ends : Item τ → Bool) :
    Tokenizer γ τ → List (Item τ) → Item τ → Tokenizer γ τ → Prop
  | stop {t last u} : t.next = (.ok last, u) → ends last = true → Reads ends t [] last u
  | more {t item t' items last u} : t.next = (.ok item, t') → ends item = false →
      Reads ends t' items last u → Reads ends t (item :: items) last u

theorem isEnd_eq_true {item : Item τ} :
    isEnd item = true ↔ ∃ token, item = .ok token ∧ token.isSentinel = true := by
  cases item with
  | ok token => simp [isEnd]
  | error e => simp [isEnd]

/-- A run is the reading up to the end of the input. -/
theorem Run.reads {t u : Tokenizer γ τ} {items : List (Item τ)} {last : Token τ}
    (h : Run t items last u) : Reads isEnd t items (.ok last) u := by
  induction h with
  | stop hnext hlast => exact .stop hnext hlast
  | @item t item t' items last u hnext hmore _ ih =>
    refine .more hnext ?_ ih
    cases item with
    | ok token => exact hmore token rfl
    | error e => rfl

theorem Reads.run {t u : Tokenizer γ τ} {items : List (Item τ)} {item : Item τ}
    (h : Reads isEnd t items item u) : ∃ last, item = .ok last ∧ Run t items last u := by
  induction h with
  | stop hnext hlast =>
    obtain ⟨last, rfl, hsentinel⟩ := isEnd_eq_true.mp hlast
    exact ⟨last, rfl, .stop hnext hsentinel⟩
  | more hnext hitem _ ih =>
    obtain ⟨last, rfl, hrun⟩ := ih
    refine ⟨last, rfl, .item hnext ?_ hrun⟩
    rintro token rfl
    exact hitem

section Tokens

variable {t u : Tokenizer γ τ} {tokens : List (Token τ)} {last : Token τ}

/-- Where a run meets no error, all tokens are read by it. -/
theorem Run.reads_tokens (h : Run t (tokens.map .ok) last u) :
    Reads endsTokens t (tokens.map .ok) (.ok last) u := by
  induction tokens generalizing t with
  | nil =>
    cases h with
    | stop hnext hlast => exact .stop hnext (by simpa using hlast)
  | cons token tokens ih =>
    cases h with
    | item hnext hmore hrun =>
      have hgoes : endsTokens (.ok token) = false := by simpa using hmore token rfl
      exact .more hnext hgoes (ih hrun)

/-- The first error of a run ends the reading of tokens, and the run goes on behind it. -/
theorem Run.reads_error {e : LexError} {back : List (Item τ)}
    (h : Run t (tokens.map .ok ++ .error e :: back) last u) :
    ∃ v, Reads endsTokens t (tokens.map .ok) (.error e) v ∧ Run v back last u := by
  induction tokens generalizing t with
  | nil =>
    cases h with
    | item hnext _ hrun => exact ⟨_, .stop hnext rfl, hrun⟩
  | cons token tokens ih =>
    cases h with
    | item hnext hmore hrun =>
      obtain ⟨v, hreads, hback⟩ := ih hrun
      have hgoes : endsTokens (.ok token) = false := by simpa using hmore token rfl
      exact ⟨v, .more hnext hgoes hreads, hback⟩

end Tokens

section Fuel

variable {n : Nat} {t u : Tokenizer γ τ} {items : List (Item τ)} {last : Item τ}

theorem Reads.itemsWithin (h : Reads isEnd t items last u) (hn : items.length < n) :
    itemsWithin n t = (.ok items, u) := by
  induction h generalizing n with
  | stop hnext hlast =>
    obtain ⟨n, rfl⟩ : ∃ k, n = k + 1 := ⟨n - 1, by omega⟩
    obtain ⟨token, rfl, hsentinel⟩ := isEnd_eq_true.mp hlast
    rw [Tokenizer.itemsWithin, nextItem?, hnext]
    simp [hsentinel]
  | @more t item t' items last u hnext hitem _ ih =>
    obtain ⟨n, rfl⟩ : ∃ k, n = k + 1 := ⟨n - 1, by omega⟩
    have hrest := ih (by simpa using hn)
    rw [Tokenizer.itemsWithin, nextItem?, hnext]
    cases item with
    | ok token =>
      have hmore : token.isSentinel = false := hitem
      simp [hmore, hrest, Except.map]
    | error e => simp [hrest, Except.map]

theorem Reads.tokensWithin (h : Reads endsTokens t items last u) (hn : items.length < n) :
    tokensWithin n t = (.ok (collect (items ++ [last])), u) := by
  induction h generalizing n with
  | @stop t last u hnext hlast =>
    obtain ⟨n, rfl⟩ : ∃ k, n = k + 1 := ⟨n - 1, by omega⟩
    rw [Tokenizer.tokensWithin, hnext]
    cases last with
    | ok token =>
      have hsentinel : token.isSentinel = true := by simpa using hlast
      simp [hsentinel]
      rfl
    | error e => rfl
  | @more t item t' items last u hnext hitem _ ih =>
    obtain ⟨n, rfl⟩ : ∃ k, n = k + 1 := ⟨n - 1, by omega⟩
    have hrest := ih (by simpa using hn)
    rw [Tokenizer.tokensWithin, hnext]
    cases item with
    | ok token =>
      have hmore : token.isSentinel = false := by simpa using hitem
      simp [hmore, hrest, Except.map, collect]
    | error e => contradiction

end Fuel

end Lexing.Tokenizer
