import Lexing.Proofs.Brace.Checked

/-! Freedom from faults. Whatever is asked of a tokenizer of the brace language,
in any order, its cursor stays between characters of the source, so no range is
broken and no byte is read past the end. With every offset, range and move
checked, it answers the same. -/

namespace Lexing.Brace

/-- What can be asked of a tokenizer. -/
inductive Operation
  | next
  | peek
  | nextItem
  | tokens
  | expect (expected : Kinds)
  | remainder
  | reset
  | replace (features : Features)
  | push (token : Token Kinds)

/-- Of an answer, only whether it is a fault is kept. -/
def outcome {γ α : Type} (answer : Except (Fault Kinds) α × Tokenizer γ Kinds) :
    Except (Fault Kinds) Unit × Tokenizer γ Kinds :=
  (answer.1.map fun _ => (), answer.2)

theorem outcome_of_ok {γ α : Type} {answer : Except (Fault Kinds) α × Tokenizer γ Kinds} {a : α}
    {u : Tokenizer γ Kinds} (h : answer = (.ok a, u)) : outcome answer = (.ok (), u) := by
  rw [h]
  rfl

namespace Operation

/-- An operation where `rules` are the grammar with some features. -/
def runOver {γ : Type} [Grammar γ Kinds] (rules : Features → γ) (t : Tokenizer γ Kinds) :
    Operation → Except (Fault Kinds) Unit × Tokenizer γ Kinds
  | next => outcome t.next
  | peek => outcome t.peek
  | nextItem => outcome t.nextItem?
  | tokens => outcome t.tokens
  | expect expected => outcome (Brace.expect t expected)
  | remainder => outcome (t.cursor.remainder.mapError .misuse, t)
  | reset => (.ok (), t.reset)
  | replace features => (.ok (), { t with grammar := rules features })
  | push token =>
      match t.push token with
      | .ok t' => (.ok (), t')
      | .error fault => (.error fault, t)

def run (t : BraceTokenizer) : Operation → Except (Fault Kinds) Unit × BraceTokenizer :=
  runOver id t

/-- A token may be put back while none is pending. Everything else may be asked
at any time. -/
def Allowed (t : BraceTokenizer) : Operation → Prop
  | push _ => t.pending = none
  | _ => True

end Operation

/-- The tokenizers that allowed operations lead to, from a new one over a source. -/
inductive Reached (source : Source) : BraceTokenizer → Prop
  | start (features : Features) : Reached source (.ofSource source features)
  | step {t} (op : Operation) : Reached source t → op.Allowed t → Reached source (op.run t).2

/-- A token of a range of the source that is not empty, starts and ends between
characters and holds the token's text. -/
structure Covers (source : Source) (token : Token Kinds) : Prop where
  start_lt : token.position.offset < token.stop
  stop_le : token.stop ≤ source.length
  start_boundary : source.Boundary token.position.offset
  stop_boundary : source.Boundary token.stop
  cut : source.cut? token.position.offset token.stop = some token.data

/-- The cursor is between characters of the source. -/
structure Sound (source : Source) (t : BraceTokenizer) : Prop where
  source_eq : t.cursor.source = source
  onBoundary : t.cursor.OnBoundary

/-- No operation fails, nor with checks on offsets up to any limit that the source
keeps, and all ranges of the source that are read are sound. A reading of all
tokens goes on up to the end of the input. -/
structure Safe (source : Source) (t : BraceTokenizer) : Prop where
  source_eq : t.cursor.source = source
  offset_le : t.cursor.offset ≤ source.length
  boundary : source.Boundary t.cursor.offset
  no_fault : ∀ op : Operation, op.Allowed t → (op.run t).1 = .ok ()
  no_trap : ∀ limit, source.length ≤ limit → ∀ op : Operation, op.Allowed t →
    op.runOver (Checked.mk limit) (t.mapGrammar (Checked.mk limit)) =
      (.ok (), (op.run t).2.mapGrammar (Checked.mk limit))
  remainder : ∃ text, t.cursor.remainder = .ok text ∧
    encode text.toList = source.bytes.drop t.cursor.offset
  covers : ∀ token, (Grammar.emit t.grammar t.cursor).result = .ok (.ok token) →
    token.isSentinel = true ∨ Covers source token
  tokens_end : ∀ tokens, t.tokens.1 = .ok (.ok tokens) →
    ∃ last ∈ tokens.getLast?, last.isSentinel = true

/-- A bound on the items that are left before the end of the input. -/
def budget (t : BraceTokenizer) : Nat := t.cursor.rest.length + if t.pending.isSome then 1 else 0

section Sound

variable {source : Source} {t : BraceTokenizer}

theorem budget_lt_bound (t : BraceTokenizer) : budget t < t.bound := by
  unfold budget Tokenizer.bound
  split <;> omega

/-- Taking an item never fails. If it is not the end of the input, fewer are left. -/
theorem Sound.next (h : Sound source t) : ∃ item t', t.next = (.ok item, t') ∧ Sound source t' ∧
    t'.pending = none ∧
      ((∃ token, item = .ok token ∧ token.isSentinel = true) ∨ budget t' < budget t) := by
  obtain ⟨c, features, pending⟩ := t
  cases pending with
  | some token =>
    refine ⟨.ok token, ⟨c, features, none⟩, rfl, ⟨h.source_eq, h.onBoundary⟩, rfl, .inr ?_⟩
    simp [budget]
  | none =>
    obtain ⟨bs, tail, item, hrest, hscan, hend, hnext⟩ := next_eq features h.onBoundary
    refine ⟨item, _, hnext, ⟨h.source_eq, hend⟩, rfl, ?_⟩
    cases hscan with
    | stop _ => exact .inl ⟨_, rfl, rfl⟩
    | item _ _ hlexes =>
      right
      have hpos := List.length_pos_iff.mpr hlexes.ne_nil
      have hlen := congrArg List.length hrest
      simp only [List.length_append] at hlen
      simp only [budget, Cursor.rest_pass hrest, Option.isSome_none]
      omega

theorem Sound.of_next (h : Sound source t) {u : BraceTokenizer} {item : Item Kinds}
    (hnext : t.next = (.ok item, u)) : Sound source u := by
  obtain ⟨item', u', hnext', hsound, -⟩ := h.next
  rw [hnext] at hnext'
  cases hnext'
  exact hsound

theorem Sound.push (h : Sound source t) (hpending : t.pending = none) (token : Token Kinds) :
    ∃ t', t.push token = .ok t' ∧ Sound source t' :=
  ⟨_, Tokenizer.push_of_none hpending token, h.source_eq, h.onBoundary⟩

theorem Sound.peek (h : Sound source t) :
    ∃ item t', t.peek = (.ok item, t') ∧ Sound source t' := by
  obtain ⟨item, t', hnext, hsound, -, -⟩ := h.next
  cases item with
  | error e =>
    have hpeek : t.peek = t.next := Tokenizer.peek_of_no_token (by simp [hnext])
    exact ⟨_, _, hpeek.trans hnext, hsound⟩
  | ok token => exact ⟨_, _, Tokenizer.peek_of_token hnext, hsound.source_eq, hsound.onBoundary⟩

theorem Sound.nextItem? (h : Sound source t) :
    ∃ item t', t.nextItem? = (.ok item, t') ∧ Sound source t' := by
  obtain ⟨item, t', hnext, hsound, -, -⟩ := h.next
  unfold Tokenizer.nextItem?
  rw [hnext]
  cases item with
  | error e => exact ⟨_, _, rfl, hsound⟩
  | ok token => exact ⟨_, _, rfl, hsound⟩

theorem Sound.expect (h : Sound source t) (expected : Kinds) :
    ∃ answer t', expect t expected = (.ok answer, t') ∧ Sound source t' := by
  obtain ⟨item, t', hnext, hsound, hpending, -⟩ := h.next
  rw [Brace.expect, hnext]
  cases item with
  | error e => exact ⟨_, _, rfl, hsound⟩
  | ok token =>
    obtain ⟨t'', hpush, hsound'⟩ := hsound.push hpending token
    dsimp only
    split
    · exact ⟨_, _, rfl, hsound⟩
    · rw [hpush]
      exact ⟨_, _, rfl, hsound'⟩

/-- With fuel beyond the budget, all tokens are read up to the end of the input
or up to the first error. -/
theorem Sound.tokensWithin {n : Nat} (h : Sound source t) (hn : budget t < n) : ∃ answer t',
    Tokenizer.tokensWithin n t = (.ok answer, t') ∧ Sound source t' ∧
      ∀ tokens, answer = .ok tokens → ∃ last ∈ tokens.getLast?, last.isSentinel = true := by
  induction n generalizing t with
  | zero => omega
  | succ n ih =>
    obtain ⟨item, t', hnext, hsound, -, hless⟩ := h.next
    unfold Tokenizer.tokensWithin
    rw [hnext]
    cases item with
    | error e => exact ⟨_, _, rfl, hsound, fun tokens heq => by contradiction⟩
    | ok token =>
      dsimp only
      cases hlast : token.isSentinel with
      | true =>
        refine ⟨_, _, rfl, hsound, ?_⟩
        rintro tokens ⟨⟩
        exact ⟨token, rfl, hlast⟩
      | false =>
        have hbudget : budget t' < budget t := by
          rcases hless with ⟨token', heq, hstop⟩ | hlt
          · cases heq
            rw [hlast] at hstop
            contradiction
          · exact hlt
        obtain ⟨answer, t'', hrun, hsound', hend⟩ := ih hsound (by omega)
        rw [hrun]
        refine ⟨_, _, rfl, hsound', ?_⟩
        intro tokens heq
        cases answer with
        | error e => contradiction
        | ok rest =>
          cases heq
          obtain ⟨last, hmem, hstop⟩ := hend rest rfl
          refine ⟨last, ?_, hstop⟩
          rw [List.getLast?_cons, Option.mem_def.mp hmem]
          rfl

theorem Sound.tokens (h : Sound source t) : ∃ answer t', t.tokens = (.ok answer, t') ∧
    Sound source t' ∧
      ∀ tokens, answer = .ok tokens → ∃ last ∈ tokens.getLast?, last.isSentinel = true :=
  h.tokensWithin (budget_lt_bound t)

theorem Sound.remainder (h : Sound source t) : ∃ text, t.cursor.remainder = .ok text ∧
    encode text.toList = source.bytes.drop t.cursor.offset := by
  have hle := h.onBoundary.le
  obtain ⟨text, hcut, hbytes⟩ := h.onBoundary.cut t.cursor.source.boundary_length hle
  refine ⟨text, Cursor.slice_of_cut hle hcut, ?_⟩
  rw [hbytes, h.source_eq, ← List.drop_take]
  simp [Source.length]

theorem Sound.covers (h : Sound source t) {token : Token Kinds}
    (htoken : (Grammar.emit t.grammar t.cursor).result = .ok (.ok token)) :
    token.isSentinel = true ∨ Covers source token := by
  obtain ⟨bs, tail, item, hrest, hscan, -, hemit⟩ := emit_eq t.grammar h.onBoundary
  have hitem : item = .ok token := by
    have hgrammar : Grammar.emit t.grammar t.cursor = _ := hemit
    rw [hgrammar] at htoken
    exact Except.ok.inj htoken
  subst hitem
  cases hscan with
  | stop _ => exact .inl rfl
  | item hgap _ hlexes =>
    right
    rw [List.append_assoc] at hrest
    have hcut := hlexes.cut (hgap.onBoundary h.onBoundary hrest) (Cursor.rest_pass hrest)
    rw [Cursor.pass_source, h.source_eq] at hcut
    have hpos := List.length_pos_iff.mpr hlexes.ne_nil
    rw [← hlexes.bytes_eq] at hpos
    have hlt : token.position.offset < token.stop := Nat.lt_add_of_pos_right hpos
    obtain ⟨hstart, hstop⟩ := Source.boundary_of_cut (Nat.le_of_lt hlt) hcut
    exact ⟨hlt, hstop.le, hstart, hstop, hcut⟩

theorem Sound.run (h : Sound source t) {op : Operation} (hop : op.Allowed t) :
    ∃ t', op.run t = (.ok (), t') ∧ Sound source t' := by
  cases op with
  | next =>
    obtain ⟨item, t', hnext, hsound, -⟩ := h.next
    exact ⟨t', outcome_of_ok hnext, hsound⟩
  | peek =>
    obtain ⟨item, t', hpeek, hsound⟩ := h.peek
    exact ⟨t', outcome_of_ok hpeek, hsound⟩
  | nextItem =>
    obtain ⟨item, t', hitem, hsound⟩ := h.nextItem?
    exact ⟨t', outcome_of_ok hitem, hsound⟩
  | tokens =>
    obtain ⟨answer, t', htokens, hsound, -⟩ := h.tokens
    exact ⟨t', outcome_of_ok htokens, hsound⟩
  | expect expected =>
    obtain ⟨answer, t', hexpect, hsound⟩ := h.expect expected
    exact ⟨t', outcome_of_ok hexpect, hsound⟩
  | remainder =>
    obtain ⟨text, hremainder, -⟩ := h.remainder
    refine ⟨t, ?_, h⟩
    apply outcome_of_ok
    rw [hremainder]
    rfl
  | reset =>
    refine ⟨t.reset, rfl, h.source_eq, ?_⟩
    exact Cursor.ofSource_onBoundary t.cursor.source
  | replace features => exact ⟨_, rfl, h.source_eq, h.onBoundary⟩
  | push token =>
    obtain ⟨t', hpush, hsound⟩ := h.push hop token
    refine ⟨t', ?_, hsound⟩
    rw [Operation.run, Operation.runOver, hpush]

/-- With checks an operation answers the same and leaves the same tokenizer. -/
theorem Sound.runOver_eq (h : Sound source t) {limit : Nat} (hlen : source.length ≤ limit)
    (op : Operation) : op.runOver (Checked.mk limit) (t.mapGrammar (Checked.mk limit)) =
      (op.run t).map id (Tokenizer.mapGrammar (Checked.mk limit)) := by
  have hlike := Checked.scansLike hlen
  have ht : t.cursor.source = source ∧ t.cursor.OnBoundary := ⟨h.source_eq, h.onBoundary⟩
  cases op with
  | next => exact congrArg outcome (hlike.next_eq ht)
  | peek => exact congrArg outcome (hlike.peek_eq ht)
  | nextItem => exact congrArg outcome (hlike.nextItem?_eq ht)
  | tokens => exact congrArg outcome (hlike.tokens_eq ht)
  | expect expected => exact congrArg outcome (Checked.expect_eq hlike ht expected)
  | remainder => rfl
  | reset => rfl
  | replace features => rfl
  | push token =>
    simp only [Operation.run, Operation.runOver, ScansLike.push_mapGrammar]
    cases t.push token <;> rfl

end Sound

theorem Reached.sound {source : Source} {t : BraceTokenizer} (h : Reached source t) :
    Sound source t := by
  induction h with
  | start features => exact ⟨rfl, Cursor.ofSource_onBoundary source⟩
  | step op _ hop ih =>
    obtain ⟨t', hrun, hsound⟩ := ih.run hop
    rw [hrun]
    exact hsound

/-- Whatever was asked before, nothing that is asked next can fail. -/
theorem Reached.safe {source : Source} {t : BraceTokenizer} (h : Reached source t) :
    Safe source t := by
  have hsound := h.sound
  constructor
  · exact hsound.source_eq
  · rw [← hsound.source_eq]
    exact hsound.onBoundary.le
  · rw [← hsound.source_eq]
    exact hsound.onBoundary
  · intro op hop
    obtain ⟨t', hrun, -⟩ := hsound.run hop
    rw [hrun]
  · intro limit hlen op hop
    obtain ⟨t', hrun, -⟩ := hsound.run hop
    rw [hsound.runOver_eq hlen, hrun]
    rfl
  · exact hsound.remainder
  · intro token htoken
    exact hsound.covers htoken
  · obtain ⟨answer, t', htokens, -, hend⟩ := hsound.tokens
    intro tokens heq
    rw [htokens] at heq
    exact hend tokens (Except.ok.inj heq)

def accented : Source := .ofString "é \""

/-- The quote is an error; afterwards it is put back as a word of a language in
which quotes are parts of words. -/
def relexed : BraceTokenizer :=
  let t := (Operation.next.run (Operation.next.run (.ofSource accented .all)).2).2
  ((Operation.push ⟨.ofKind .string, some "\"", ⟨3, 1, 4⟩⟩).run
    ((Operation.replace .plain).run t).2).2

theorem safe_relexed : Reached accented relexed ∧ Safe accented relexed := by
  have hword : Reached accented _ := .step .next (.start .all) trivial
  have hquote := hword.step .next trivial
  have hplain := hquote.step (.replace .plain) trivial
  have hpushed := hplain.step (.push ⟨.ofKind .string, some "\"", ⟨3, 1, 4⟩⟩) rfl
  exact ⟨hpushed, Reached.safe hpushed⟩

end Lexing.Brace
