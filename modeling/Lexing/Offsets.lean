import Lexing.Cursor

/-! A cursor on offsets that are machine words. A sum can exceed the largest offset, a range
can leave the source and a move can go past its end, so each is checked where it comes up,
and what fails a check is a misuse. A reader leaves a cursor whatever it answers, and the
next one goes on from there. -/

namespace Lexing.Offsets

/-- A sum of offsets, up to the largest one. -/
def add (limit m n : Nat) : Except Misuse Nat :=
  if m + n ≤ limit then .ok (m + n) else .error .overflow

/-- A difference of offsets, which cannot be negative. -/
def sub (m n : Nat) : Except Misuse Nat := if n ≤ m then .ok (m - n) else .error .overflow

def range (bytes : List UInt8) (start stop : Nat) : Except Misuse (List UInt8) :=
  if start ≤ stop ∧ stop ≤ bytes.length then .ok ((bytes.drop start).take (stop - start))
  else .error .brokenRange

def rangeFrom (bytes : List UInt8) (start : Nat) : Except Misuse (List UInt8) :=
  range bytes (min start bytes.length) bytes.length

def signLengthAt (bytes : List UInt8) (start : Nat) : Nat :=
  if bytes[start]? = some minusSign then 1 else 0

def digitCountAt (bytes : List UInt8) (start : Nat) : Except Misuse Nat :=
  (rangeFrom bytes start).map digitCount

def terminatedAt (stops : StopSet) (bytes : List UInt8) (stop : Nat) : Bool :=
  match bytes[stop]? with
  | some b => stops.contains b
  | none => true

def terminatedEnd? (stops : StopSet) (bytes : List UInt8) (stop : Nat) : Option Nat :=
  if terminatedAt stops bytes stop then some stop else none

section Limit

variable (limit : Nat)

def integerEnd? (stops : StopSet) (bytes : List UInt8) (start : Nat) :
    Except Misuse (Option Nat) := do
  let first ← add limit start (signLengthAt bytes start)
  let digits ← digitCountAt bytes first
  if digits = 0 then return none
  else
    let stop ← add limit first digits
    return terminatedEnd? stops bytes stop

def decimalEnd? (stops : StopSet) (bytes : List UInt8) (start : Nat) :
    Except Misuse (Option Nat) := do
  let first ← add limit start (signLengthAt bytes start)
  let digits ← digitCountAt bytes first
  let whole ← add limit first digits
  if bytes[whole]? = some decimalPoint then
    let behind ← add limit whole 1
    let places ← digitCountAt bytes behind
    if places = 0 then return none
    else
      let fraction ← add limit 1 places
      let stop ← add limit whole fraction
      return terminatedEnd? stops bytes stop
  else if digits = 0 then return none
  else return terminatedEnd? stops bytes whole

def wordEnd? (stops : StopSet) (bytes : List UInt8) (start : Nat) :
    Except Misuse (Option Nat) := do
  let rest ← rangeFrom bytes start
  let length := (rest.takeWhile fun b => !stops.contains b).length
  let stop ← add limit start length
  return if length ≠ 0 then some stop else none

def lexemeEnd? : Shape → StopSet → List UInt8 → Nat → Except Misuse (Option Nat)
  | .integer => integerEnd? limit
  | .decimal => decimalEnd? limit
  | .word => wordEnd? limit

def quotedEnd? (quote : UInt8) (bytes : List UInt8) (start : Nat) : Except Misuse (Option Nat) :=
  if bytes[start]? = some quote then do
    let body ← add limit start 1
    let rest ← range bytes body bytes.length
    match rest.idxOf? quote with
    | none => return none
    | some close =>
        let last ← add limit body close
        let stop ← add limit last 1
        return some stop
  else return none

def advance (p : Position) (stop : Nat) (skipped : List UInt8) : Except Misuse Position :=
  match Position.lastLineFeed? skipped with
  | some last => do
      let column ← sub skipped.length last
      return ⟨stop, Position.saturate (p.line + Position.saturate (skipped.count lineFeed)),
        Position.saturate column⟩
  | none => return ⟨stop, p.line, Position.saturate (p.column + Position.saturate skipped.length)⟩

/-- A target behind the end of the source is refused even where nothing is consumed. -/
def advanceTo (c : Cursor) (stop : Nat) : Except Misuse Cursor :=
  if c.source.length < stop then .error .pastEnd
  else if stop ≤ c.offset then return c
  else do
    let skipped ← range c.source.bytes c.offset stop
    let position ← advance c.position stop skipped
    return { c with position }

def next (c : Cursor) : Except Misuse (UInt8 × Cursor) := do
  let (b, c') ← c.next
  let stop ← add limit c.offset 1
  return (b, { c' with position := { c'.position with offset := stop } })

def discardWhile (c : Cursor) (p : UInt8 → Bool) : Except Misuse Cursor := do
  let rest ← range c.source.bytes c.offset c.source.length
  let stop ← add limit c.offset (rest.takeWhile p).length
  advanceTo c stop

def discardUntil (c : Cursor) (stops : StopSet) : Except Misuse Cursor :=
  discardWhile limit c fun b => !stops.contains b

def skipWhitespace (c : Cursor) : Except Misuse Cursor :=
  discardWhile limit c StopSet.whitespace.contains

/-- What a reader leaves where it has found an end, or none. -/
def settle (c : Cursor) : Option Nat → Except Misuse (Option Nat × Cursor)
  | none => return (none, c)
  | some stop => do
      let c' ← advanceTo c stop
      return (some stop, c')

def read (c : Cursor) (shape : Shape) (start : Nat) (stops : StopSet) :
    Except Misuse (Option Nat × Cursor) :=
  lexemeEnd? limit shape stops c.source.bytes start >>= settle c

def readQuoted (c : Cursor) (start : Nat) (quote : UInt8) : Except Misuse (Option Nat × Cursor) :=
  if isAscii quote then quotedEnd? limit quote c.source.bytes start >>= settle c
  else .error .nonAsciiQuote

/-- Each reader of the chain starts from the cursor that the one before it left. -/
def classify {τ : Type} (c : Cursor) (start : Nat) (stops : StopSet) :
    List (τ × Shape) → Except Misuse (Option (τ × Nat) × Cursor)
  | [] => return (none, c)
  | (tag, shape) :: chain => do
      match ← read limit c shape start stops with
      | (some stop, c') => return (some (tag, stop), c')
      | (none, c') => classify c' start stops chain

end Limit

end Lexing.Offsets
