import Lexing.Source

/-! Output that may run full. A sink takes the bytes of each piece as far as it
has room for them, and after a piece that did not fit it takes nothing. -/

namespace Lexing

/-- The room of a sink in bytes; without a number it never runs full. -/
structure Sink where
  room : Option Nat
  deriving DecidableEq, Repr

/-- What a sink took, and whether that is all it was given. -/
structure Delivery where
  written : List UInt8
  complete : Bool
  deriving DecidableEq

namespace Sink

def unlimited : Sink := ⟨none⟩

def fullText : String := "sink is full"

/-- A sink's room for `n` bytes more, and what is left of it behind them. -/
def take? (s : Sink) (n : Nat) : Option Sink :=
  match s.room with
  | none => some s
  | some room => if n ≤ room then some ⟨some (room - n)⟩ else none

def deliver (s : Sink) : List String → Delivery
  | [] => ⟨[], true⟩
  | piece :: pieces =>
      let bytes := encode piece.toList
      match s.take? bytes.length with
      | some s' =>
          let later := s'.deliver pieces
          ⟨bytes ++ later.written, later.complete⟩
      | none => ⟨bytes.take (s.room.getD 0), false⟩

theorem deliver_unlimited (pieces : List String) :
    unlimited.deliver pieces = ⟨pieces.flatMap fun piece => encode piece.toList, true⟩ := by
  induction pieces with
  | nil => rfl
  | cons piece pieces ih =>
    have htake : unlimited.take? (encode piece.toList).length = some unlimited := rfl
    rw [deliver, htake, List.flatMap_cons]
    simp only [ih]

/-- With room for some bytes, as many are taken of the whole, wherever one piece ends and the
next one starts. -/
theorem deliver_bounded (room : Nat) (pieces : List String) :
    (Sink.mk (some room)).deliver pieces =
      ⟨(pieces.flatMap fun piece => encode piece.toList).take room,
        decide ((pieces.flatMap fun piece => encode piece.toList).length ≤ room)⟩ := by
  induction pieces generalizing room with
  | nil => simp [deliver]
  | cons piece pieces ih =>
    rw [List.flatMap_cons]
    generalize (pieces.flatMap fun piece => encode piece.toList) = later at ih ⊢
    rw [List.take_append, List.length_append]
    by_cases hfits : (encode piece.toList).length ≤ room
    · have htake : (Sink.mk (some room)).take? (encode piece.toList).length =
          some ⟨some (room - (encode piece.toList).length)⟩ := if_pos hfits
      have hroom : later.length ≤ room - (encode piece.toList).length ↔
          (encode piece.toList).length + later.length ≤ room := by omega
      rw [deliver, htake, List.take_of_length_le hfits]
      simp only [ih, hroom]
    · have htake : (Sink.mk (some room)).take? (encode piece.toList).length = none := if_neg hfits
      have hnothing : room - (encode piece.toList).length = 0 := by omega
      have hmore : ¬ (encode piece.toList).length + later.length ≤ room := by omega
      rw [deliver, htake, hnothing, List.take_zero, List.append_nil, decide_eq_false hmore]
      rfl

end Sink

end Lexing
