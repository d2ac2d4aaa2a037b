import Lexing.Proofs.Brace.Safety

/-! Attempts to take a token of some kinds. An attempt that fails puts the token back, so
nothing is consumed and the next attempt is as good as the first. -/

namespace Lexing.Brace

def attempts (t : BraceTokenizer) :
    List Kinds → List (Except (Fault Kinds) (Except ExpectError (Token Kinds))) × BraceTokenizer
  | [] => ([], t)
  | expected :: more =>
      let (answer, t') := expect t expected
      let (answers, t'') := attempts t' more
      (answer :: answers, t'')

/-- What attempts come to: a token of one of the kinds is taken, an error is taken too, and
any other token stays the next one. Attempts that fail leave no trace in what the one behind
them comes to. -/
structure Expecting (t : BraceTokenizer) : Prop where
  answered : ∃ item u, t.next = (.ok item, u)
  taken_iff : ∀ expected token u, expect t expected = (.ok (.ok token), u) ↔
    t.next = (.ok (.ok token), u) ∧ token.tag.bits &&& expected.bits ≠ 0
  lexical_iff : ∀ expected e u, expect t expected = (.ok (.error (.lexical e)), u) ↔
    t.next = (.ok (.error e), u)
  missed : ∀ expected token, t.next.1 = .ok (.ok token) → token.tag.bits &&& expected.bits = 0 →
    expect t expected =
      (.ok (.error (.unexpected expected token.tag token.position)), t.peek.2)
  kept : ∀ token, t.next.1 = .ok (.ok token) → t.peek.2.next = t.next
  retried : ∀ token misses expected, t.next.1 = .ok (.ok token) →
    (∀ missed ∈ misses, token.tag.bits &&& missed.bits = 0) →
      attempts t (misses ++ [expected]) =
        (misses.map (fun missed => .ok (.error (.unexpected missed token.tag token.position)))
          ++ [(expect t expected).1], (expect t expected).2)

theorem Kinds.intersects_iff {s t : Kinds} : s.intersects t = true ↔ t.bits &&& s.bits ≠ 0 := by
  simp [intersects, inter, empty, BitVec.and_comm]

section Attempt

variable {t u : BraceTokenizer} {token : Token Kinds}

theorem expect_of_token (h : t.next = (.ok (.ok token), u)) (expected : Kinds) :
    expect t expected =
      if expected.intersects token.tag then (.ok (.ok token), u)
      else (.ok (.error (.unexpected expected token.tag token.position)), t.peek.2) := by
  have hpending := t.next_pending
  rw [h] at hpending
  rw [expect, h, Tokenizer.peek_of_token h]
  dsimp only
  rw [Tokenizer.push_of_none hpending]

theorem expect_of_error {e : LexError} (h : t.next = (.ok (.error e), u)) (expected : Kinds) :
    expect t expected = (.ok (.error (.lexical e)), u) := by
  rw [expect, h]

theorem expect_of_miss (h : t.next = (.ok (.ok token), u)) {expected : Kinds}
    (hmiss : token.tag.bits &&& expected.bits = 0) : expect t expected =
      (.ok (.error (.unexpected expected token.tag token.position)), t.peek.2) := by
  rw [expect_of_token h, if_neg]
  intro hmeets
  exact Kinds.intersects_iff.mp hmeets hmiss

theorem expect_of_peek (h : t.next = (.ok (.ok token), u)) (expected : Kinds) :
    expect t.peek.2 expected = expect t expected := by
  rw [expect_of_token (Tokenizer.next_of_peek h), expect_of_token h, Tokenizer.peek_of_peek h]

/-- Attempts that fail leave the one behind them as it would be without them. -/
theorem attempts_of_misses (h : t.next = (.ok (.ok token), u)) {misses : List Kinds}
    (hmisses : ∀ missed ∈ misses, token.tag.bits &&& missed.bits = 0) (expected : Kinds) :
    attempts t (misses ++ [expected]) =
      (misses.map (fun missed => .ok (.error (.unexpected missed token.tag token.position)))
        ++ [(expect t expected).1], (expect t expected).2) := by
  induction misses generalizing t with
  | nil => rfl
  | cons missed misses ih =>
    have hmiss := expect_of_miss h (hmisses missed List.mem_cons_self)
    have hrest := ih (Tokenizer.next_of_peek h)
      fun other hother => hmisses other (List.mem_cons_of_mem _ hother)
    rw [List.cons_append, attempts, hmiss]
    dsimp only
    rw [hrest, expect_of_peek h]
    rfl

theorem expecting_of_token (h : t.next = (.ok (.ok token), u)) : Expecting t := by
  have hfirst : ∀ token', t.next.1 = .ok (.ok token') → token' = token := by
    intro token' heq
    rw [h] at heq
    cases heq
    rfl
  constructor
  · exact ⟨_, _, h⟩
  · intro expected token' u'
    rw [expect_of_token h, h, ← Kinds.intersects_iff]
    split
    · next hmeets =>
      constructor
      · rintro ⟨⟩
        exact ⟨rfl, hmeets⟩
      · rintro ⟨⟨⟩, -⟩
        rfl
    · next hmiss =>
      constructor
      · rintro ⟨⟩
      · rintro ⟨⟨⟩, hmeets⟩
        exact absurd hmeets hmiss
  · intro expected e u'
    rw [expect_of_token h, h]
    constructor
    · split <;> rintro ⟨⟩
    · rintro ⟨⟩
  · intro expected token' heq hmiss
    obtain rfl := hfirst token' heq
    exact expect_of_miss h hmiss
  · intro token' _
    rw [Tokenizer.next_of_peek h, h]
  · intro token' misses expected heq hmisses
    obtain rfl := hfirst token' heq
    exact attempts_of_misses h hmisses expected

theorem expecting_of_error {e : LexError} (h : t.next = (.ok (.error e), u)) : Expecting t := by
  have hnone : ∀ token, t.next.1 ≠ .ok (.ok token) := by
    intro token heq
    rw [h] at heq
    cases heq
  constructor
  · exact ⟨_, _, h⟩
  · intro expected token u'
    rw [expect_of_error h, h]
    constructor
    · rintro ⟨⟩
    · rintro ⟨⟨⟩, -⟩
  · intro expected e' u'
    rw [expect_of_error h, h]
    constructor
    · rintro ⟨⟩
      rfl
    · rintro ⟨⟩
      rfl
  · exact fun _ token heq => absurd heq (hnone token)
  · exact fun token heq => absurd heq (hnone token)
  · exact fun token _ _ heq => absurd heq (hnone token)

end Attempt

/-- Whatever was asked before, also with a token of any tag put back, an attempt that fails
consumes nothing. -/
theorem Reached.expecting {source : Source} {t : BraceTokenizer} (h : Reached source t) :
    Expecting t := by
  obtain ⟨item, u, hnext, -⟩ := h.sound.next
  cases item with
  | ok token => exact expecting_of_token hnext
  | error e => exact expecting_of_error hnext

/-- A token that was put back is of two kinds at once and is no token of the source. -/
def twoKinds : Token Kinds := ⟨⟨0x14#32⟩, some "x", ⟨7, 1, 8⟩⟩

/-- It waits in front of a source that starts with a quote without a partner. -/
def kindsPending : BraceTokenizer :=
  ((Operation.push twoKinds).run (.ofSource (.ofString "\" 1") .all)).2

theorem expecting_kindsPending :
    Reached (.ofString "\" 1") kindsPending ∧ Expecting kindsPending ∧
      attempts kindsPending [⟨0x8#32⟩, .empty, ⟨0xFFFF0003#32⟩, ⟨0x10#32⟩] =
        ([.ok (.error (.unexpected ⟨0x8#32⟩ ⟨0x14#32⟩ ⟨7, 1, 8⟩)),
          .ok (.error (.unexpected .empty ⟨0x14#32⟩ ⟨7, 1, 8⟩)),
          .ok (.error (.unexpected ⟨0xFFFF0003#32⟩ ⟨0x14#32⟩ ⟨7, 1, 8⟩)), .ok (.ok twoKinds)],
          .ofSource (.ofString "\" 1") .all) := by
  have hpending : Reached (.ofString "\" 1") kindsPending :=
    .step (.push twoKinds) (.start .all) rfl
  have hexpecting := Reached.expecting hpending
  exact ⟨hpending, hexpecting,
    hexpecting.retried twoKinds [⟨0x8#32⟩, .empty, ⟨0xFFFF0003#32⟩] ⟨0x10#32⟩ rfl (by decide)⟩

end Lexing.Brace
