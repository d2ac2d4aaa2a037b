import Lexing.Proofs.Cursor

/-! Where a cursor is. Whatever it was moved by, and whichever of its copies it
was set back to, its line and its column are those of its offset. -/

namespace Lexing

/-- An offset of a text with its line and its column: one more than the line feeds
before it, and one more than the bytes behind the last of these. -/
structure Located (bytes : List UInt8) (p : Position) : Prop where
  offset_le : p.offset ≤ bytes.length
  line_eq : p.line = 1 + (bytes.take p.offset).count lineFeed
  column_eq : p.column = 1 + (lastLine (bytes.take p.offset)).length

namespace Cursor

/-- The second cursor is the first one behind some of the bytes that were left. -/
def Ahead (c c' : Cursor) : Prop := ∃ bs tail, c.rest = bs ++ tail ∧ c' = c.pass bs

/-- The cursor has counted all bytes before it, and no others. -/
structure Placed (source : Source) (c : Cursor) : Prop where
  source_eq : c.source = source
  position_eq : c.position = Position.start.pass (source.bytes.take c.offset)

/-- What can be asked of a cursor that may move it. -/
inductive Move
  | next
  | discardWhile (p : UInt8 → Bool)
  | discardUntil (stops : StopSet)
  | skipWhitespace
  | read (shape : Shape) (start : Nat) (stops : StopSet)
  | readQuoted (start : Nat) (quote : UInt8)
  | classify {τ : Type} (start : Nat) (stops : StopSet) (chain : List (τ × Shape))
  | reset
  | restore (copy : Cursor)

namespace Move

/-- The cursor that is left; where nothing is read it is the old one. -/
def run (c : Cursor) : Move → Cursor
  | next => match c.next with
    | .ok (_, c') => c'
    | .error _ => c
  | discardWhile p => c.discardWhile p
  | discardUntil stops => c.discardUntil stops
  | skipWhitespace => c.skipWhitespace
  | read shape start stops => match c.read shape start stops with
    | some (_, c') => c'
    | none => c
  | readQuoted start quote => match c.readQuoted start quote with
    | .ok (some (_, c')) => c'
    | _ => c
  | classify start stops chain => match c.classify start stops chain with
    | some (_, _, c') => c'
    | none => c
  | reset => c.reset
  | restore copy => copy

/-- A byte may be consumed before the end, a quote has to be ASCII, and only a
cursor that was there before can be restored. -/
def Allowed (c : Cursor) (earlier : List Cursor) : Move → Prop
  | next => c.atEnd = false
  | readQuoted _ quote => isAscii quote = true
  | restore copy => copy ∈ earlier
  | _ => True

end Move

/-- The cursors that allowed moves lead to, each with those before it. -/
inductive Moved (source : Source) : Cursor → List Cursor → Prop
  | start : Moved source (ofSource source) []
  | step {c earlier} (move : Move) : Moved source c earlier → move.Allowed c earlier →
      Moved source (move.run c) (c :: earlier)

section Ahead

variable {c c' c'' : Cursor}

theorem Ahead.refl (c : Cursor) : Ahead c c := ⟨[], c.rest, rfl, rfl⟩

theorem Ahead.trans (h : Ahead c c') (h' : Ahead c' c'') : Ahead c c'' := by
  obtain ⟨bs, tail, hrest, rfl⟩ := h
  obtain ⟨bs', tail', hrest', rfl⟩ := h'
  rw [rest_pass hrest] at hrest'
  refine ⟨bs ++ bs', tail', ?_, (pass_append c bs bs').symm⟩
  rw [hrest, hrest', List.append_assoc]

theorem advanceTo_ahead (c : Cursor) (target : Nat) : Ahead c (c.advanceTo target) := by
  rw [advanceTo_eq]
  exact ⟨_, _, (List.take_append_drop _ _).symm, rfl⟩

theorem discardWhile_ahead (c : Cursor) (p : UInt8 → Bool) : Ahead c (c.discardWhile p) :=
  c.advanceTo_ahead _

theorem next_ahead {b : UInt8} (h : c.next = .ok (b, c')) : Ahead c c' := by
  cases hrest : c.rest with
  | nil => simp [next, hrest] at h
  | cons a tail =>
    rw [next_eq hrest] at h
    cases h
    exact ⟨[b], tail, hrest, rfl⟩

theorem read_ahead {shape : Shape} {start stop : Nat} {stops : StopSet}
    (h : c.read shape start stops = some (stop, c')) : Ahead c c' := by
  obtain ⟨n, -, heq⟩ := Option.map_eq_some_iff.mp h
  cases heq
  exact c.advanceTo_ahead _

theorem readQuoted_ahead {start stop : Nat} {quote : UInt8}
    (h : c.readQuoted start quote = .ok (some (stop, c'))) : Ahead c c' := by
  obtain ⟨-, n, -, heq⟩ := readQuoted_eq_some.mp h
  cases heq
  exact c.advanceTo_ahead _

theorem classify_ahead {τ : Type} {start stop : Nat} {stops : StopSet} {chain : List (τ × Shape)}
    {tag : τ} (h : c.classify start stops chain = some (tag, stop, c')) : Ahead c c' := by
  obtain ⟨shape, -, hread⟩ := exists_of_classify h
  exact read_ahead hread

end Ahead

theorem Move.run_cases (c : Cursor) (move : Move) :
    Ahead c (move.run c) ∨ move.run c = c.reset ∨
      ∃ copy, move = .restore copy ∧ move.run c = copy := by
  cases move with
  | next =>
    left
    dsimp only [run]
    split
    · next hnext => exact next_ahead hnext
    · exact .refl c
  | discardWhile p => exact .inl (c.discardWhile_ahead p)
  | discardUntil stops => exact .inl (c.discardWhile_ahead _)
  | skipWhitespace => exact .inl (c.discardWhile_ahead _)
  | read shape start stops =>
    left
    dsimp only [run]
    split
    · next hread => exact read_ahead hread
    · exact .refl c
  | readQuoted start quote =>
    left
    dsimp only [run]
    split
    · next hread => exact readQuoted_ahead hread
    · exact .refl c
  | classify start stops chain =>
    left
    dsimp only [run]
    split
    · next hread => exact classify_ahead hread
    · exact .refl c
  | reset => exact .inr (.inl rfl)
  | restore copy => exact .inr (.inr ⟨copy, rfl, rfl⟩)

namespace Placed

variable {source : Source} {c c' : Cursor}

theorem start (source : Source) : Placed source (ofSource source) := ⟨rfl, rfl⟩

theorem reset (h : Placed source c) : Placed source c.reset := by
  rw [Cursor.reset, h.source_eq]
  exact .start source

theorem ahead (h : Placed source c) (hc : Ahead c c') : Placed source c' := by
  obtain ⟨bs, tail, hrest, rfl⟩ := hc
  refine ⟨h.source_eq, ?_⟩
  have hdrop : source.bytes.drop c.offset = bs ++ tail := by
    rw [← h.source_eq]
    exact hrest
  rw [pass_offset, List.take_add, hdrop, List.take_left, Position.pass_append, ← h.position_eq]
  rfl

theorem located (h : Placed source c) (hlen : source.length < Position.limit) :
    Located source.bytes c.position := by
  have hplace : c.position = _ := h.position_eq.trans (Position.start_pass _)
  have hoffset : c.offset = (source.bytes.take c.offset).length := congrArg Position.offset hplace
  have hbytes : source.bytes.length < Position.limit := hlen
  have hle : c.offset ≤ source.bytes.length := by
    rw [hoffset]
    exact List.length_take_le' _ _
  have hcount : (source.bytes.take c.offset).count lineFeed ≤ (source.bytes.take c.offset).length :=
    List.count_le_length
  have hline := lastLine_length_le (source.bytes.take c.offset)
  constructor
  · exact hle
  · exact (congrArg Position.line hplace).trans (Position.saturate_of_le (by omega))
  · exact (congrArg Position.column hplace).trans (Position.saturate_of_le (by omega))

end Placed

/-- Every cursor that moves lead to has counted the bytes before it, and so has
each of its copies. -/
theorem Moved.placed {source : Source} {c : Cursor} {earlier : List Cursor}
    (h : Moved source c earlier) : Placed source c ∧ ∀ copy ∈ earlier, Placed source copy := by
  induction h with
  | start => exact ⟨.start source, by simp⟩
  | @step c earlier move _ hallowed ih =>
    -- The cursor becomes a copy that a later move may go back to.
    have hall : ∀ copy ∈ c :: earlier, Placed source copy := by
      simpa using ih
    refine ⟨?_, hall⟩
    rcases move.run_cases c with hahead | hreset | ⟨copy, rfl, hcopy⟩
    · exact ih.1.ahead hahead
    · rw [hreset]
      exact ih.1.reset
    · rw [hcopy]
      exact ih.2 copy hallowed

end Cursor

end Lexing
