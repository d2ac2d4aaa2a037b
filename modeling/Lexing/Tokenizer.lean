import Lexing.Cursor

/-! Tokenizers: a grammar that scans one token at a time, with one place for a
token that was put back. -/

namespace Lexing

/-- What one scan answers, with the grammar and the cursor that it leaves. -/
structure Emission (γ τ : Type) where
  result : Except Misuse (Item τ)
  grammar : γ
  cursor : Cursor

/-- The rules by which the next token is scanned. A grammar may change as it
scans. -/
class Grammar (γ : Type) (τ : outParam Type) where
  emit : γ → Cursor → Emission γ τ

/-- The pending token is the next one; the grammar is asked when there is none. -/
structure Tokenizer (γ τ : Type) where
  cursor : Cursor
  grammar : γ
  pending : Option (Token τ)

/-- Why a tokenizer cannot answer at all. -/
inductive Fault (τ : Type)
  | misuse (m : Misuse)
  | alreadyPending (pending pushed : Token τ)
  deriving DecidableEq

def Fault.message? {τ : Type} [TagName τ] : Fault τ → Option String
  | .misuse m => m.message?
  | .alreadyPending pending pushed =>
      some ("push_token: a token is already pushed back (pending Some(" ++ pending.inspect ++
        "), pushing " ++ pushed.inspect ++ ")")

namespace Tokenizer

variable {γ τ : Type}

def ofSource (source : Source) (grammar : γ) : Tokenizer γ τ :=
  ⟨.ofSource source, grammar, none⟩

def atEnd (t : Tokenizer γ τ) : Bool := t.cursor.atEnd

def reset (t : Tokenizer γ τ) : Tokenizer γ τ := { t with cursor := t.cursor.reset, pending := none }

def push (t : Tokenizer γ τ) (token : Token τ) : Except (Fault τ) (Tokenizer γ τ) :=
  match t.pending with
  | some pending => .error (.alreadyPending pending token)
  | none => .ok { t with pending := some token }

variable [Grammar γ τ]

/-- Asks the grammar, whatever is pending. -/
def scan (t : Tokenizer γ τ) : Except (Fault τ) (Item τ) × Tokenizer γ τ :=
  let e := Grammar.emit t.grammar t.cursor
  (e.result.mapError .misuse, { t with grammar := e.grammar, cursor := e.cursor })

def next (t : Tokenizer γ τ) : Except (Fault τ) (Item τ) × Tokenizer γ τ :=
  match t.pending with
  | some token => (.ok (.ok token), { t with pending := none })
  | none => t.scan

/-- Takes a token and puts it back. An error is taken for good. -/
def peek (t : Tokenizer γ τ) : Except (Fault τ) (Item τ) × Tokenizer γ τ :=
  match t.next with
  | (.ok (.ok token), t') =>
      match t'.push token with
      | .ok t'' => (.ok (.ok token), t'')
      | .error fault => (.error fault, t')
  | answer => answer

def nextItem? (t : Tokenizer γ τ) : Except (Fault τ) (Option (Item τ)) × Tokenizer γ τ :=
  match t.next with
  | (.ok (.ok token), t') => (.ok (if token.isSentinel then none else some (.ok token)), t')
  | (.ok (.error e), t') => (.ok (some (.error e)), t')
  | (.error fault, t') => (.error fault, t')

/-- A bound on the items that are left: a pending token, one for each byte that
is not consumed, and the end of the input. -/
def bound (t : Tokenizer γ τ) : Nat := t.cursor.rest.length + 2

def itemsWithin : Nat → Tokenizer γ τ → Except (Fault τ) (List (Item τ)) × Tokenizer γ τ
  | 0, t => (.ok [], t)
  | n + 1, t =>
      match t.nextItem? with
      | (.ok none, t') => (.ok [], t')
      | (.ok (some item), t') =>
          let (items, t'') := itemsWithin n t'
          (items.map (item :: ·), t'')
      | (.error fault, t') => (.error fault, t')

/-- All items before the end of the input, errors among them. -/
def items (t : Tokenizer γ τ) : Except (Fault τ) (List (Item τ)) × Tokenizer γ τ :=
  itemsWithin t.bound t

def tokensWithin : Nat → Tokenizer γ τ →
    Except (Fault τ) (Except LexError (List (Token τ))) × Tokenizer γ τ
  | 0, t => (.ok (.ok []), t)
  | n + 1, t =>
      match t.next with
      | (.ok (.ok token), t') =>
          if token.isSentinel then (.ok (.ok [token]), t')
          else
            let (tokens, t'') := tokensWithin n t'
            (tokens.map (·.map (token :: ·)), t'')
      | (.ok (.error e), t') => (.ok (.error e), t')
      | (.error fault, t') => (.error fault, t')

/-- All tokens up to the end of the input, which is the last of them. The first
error stops the run and is the answer. -/
def tokens (t : Tokenizer γ τ) :
    Except (Fault τ) (Except LexError (List (Token τ))) × Tokenizer γ τ :=
  tokensWithin t.bound t

end Tokenizer

end Lexing
