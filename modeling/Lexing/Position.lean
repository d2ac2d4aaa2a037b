/-! Places in a source text: a byte offset with the line and the column that a
reader of the text would name. Lines and columns start at 1, and columns count
bytes. Both stay at the largest number of 32 bits once they reach it. -/

namespace Lexing

def lineFeed : UInt8 := 10

structure Position where
  offset : Nat
  line : Nat
  column : Nat
  deriving DecidableEq, Repr, Inhabited

namespace Position

def start : Position := ⟨0, 1, 1⟩

/-- The largest line and the largest column. -/
def limit : Nat := UInt32.size - 1

def saturate (n : Nat) : Nat := min n limit

def step (p : Position) (b : UInt8) : Position :=
  if b = lineFeed then ⟨p.offset + 1, saturate (p.line + 1), 1⟩
  else ⟨p.offset + 1, p.line, saturate (p.column + 1)⟩

def pass (p : Position) (bs : List UInt8) : Position := bs.foldl step p

/-- The index of the last line feed. -/
def lastLineFeed? (bs : List UInt8) : Option Nat :=
  (bs.reverse.idxOf? lineFeed).map fun i => bs.length - 1 - i

/-- The position behind a run of bytes, all at once: only the number of line feeds
and the place of the last one count. -/
def advance (p : Position) (bs : List UInt8) : Position :=
  if bs.isEmpty then p
  else match lastLineFeed? bs with
    | some last =>
        ⟨p.offset + bs.length, saturate (p.line + saturate (bs.count lineFeed)),
          saturate (bs.length - last)⟩
    | none => ⟨p.offset + bs.length, p.line, saturate (p.column + saturate bs.length)⟩

def render (p : Position) : String := toString p.line ++ ":" ++ toString p.column

@[simp] theorem pass_nil (p : Position) : p.pass [] = p := rfl

@[simp] theorem pass_cons (p : Position) (b : UInt8) (bs : List UInt8) :
    p.pass (b :: bs) = (p.step b).pass bs := rfl

theorem pass_append (p : Position) (as bs : List UInt8) :
    p.pass (as ++ bs) = (p.pass as).pass bs := List.foldl_append

@[simp] theorem step_offset (p : Position) (b : UInt8) : (p.step b).offset = p.offset + 1 := by
  unfold step; split <;> rfl

@[simp] theorem pass_offset (p : Position) (bs : List UInt8) :
    (p.pass bs).offset = p.offset + bs.length := by
  induction bs generalizing p with
  | nil => rfl
  | cons b bs ih => simp [ih]; omega

end Position

end Lexing
