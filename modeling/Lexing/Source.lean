import Lexing.Position

/-! Source texts. A source is a list of characters that is scanned as the bytes
of its UTF-8 encoding; a range of bytes is cut back into text only where it
starts and ends between characters. -/

namespace Lexing

def encode (cs : List Char) : List UInt8 := cs.flatMap String.utf8EncodeChar

/-- A text together with its bytes, so that the bytes are computed once. -/
structure Source where
  chars : List Char
  bytes : List UInt8
  bytes_eq : bytes = encode chars
  deriving DecidableEq

namespace Source

def ofChars (cs : List Char) : Source := ⟨cs, encode cs, rfl⟩

def ofString (s : String) : Source := ofChars s.toList

def text (s : Source) : String := String.ofList s.chars

def length (s : Source) : Nat := s.bytes.length

end Source

/-- The characters behind the first `n` bytes; `none` where those end inside a
character or there are not as many. -/
def dropBytes? : Nat → List Char → Option (List Char)
  | 0, cs => some cs
  | _ + 1, [] => none
  | n + 1, c :: cs => if c.utf8Size ≤ n + 1 then dropBytes? (n + 1 - c.utf8Size) cs else none

/-- The characters of the first `n` bytes, under the same conditions. -/
def takeBytes? : Nat → List Char → Option (List Char)
  | 0, _ => some []
  | _ + 1, [] => none
  | n + 1, c :: cs =>
      if c.utf8Size ≤ n + 1 then (takeBytes? (n + 1 - c.utf8Size) cs).map (c :: ·) else none

namespace Source

def suffix? (s : Source) (start : Nat) : Option (List Char) := dropBytes? start s.chars

/-- The text of the bytes from `start` up to `stop`; `none` if either of them is
past the end or inside a character. -/
def cut? (s : Source) (start stop : Nat) : Option String :=
  (s.suffix? start).bind fun cs => (takeBytes? (stop - start) cs).map String.ofList

end Source

@[simp] theorem encode_nil : encode [] = [] := rfl

@[simp] theorem encode_cons (c : Char) (cs : List Char) :
    encode (c :: cs) = String.utf8EncodeChar c ++ encode cs := rfl

theorem encode_append (as bs : List Char) : encode (as ++ bs) = encode as ++ encode bs :=
  List.flatMap_append

/-- What is dropped is exactly `n` bytes of whole characters. -/
theorem dropBytes?_eq_some {n : Nat} {cs back : List Char} :
    dropBytes? n cs = some back ↔ ∃ front, cs = front ++ back ∧ (encode front).length = n := by
  constructor
  · intro h
    induction cs generalizing n with
    | nil =>
        cases n with
        | zero => exact ⟨[], by simpa [dropBytes?] using h, rfl⟩
        | succ n => simp [dropBytes?] at h
    | cons c cs ih =>
        cases n with
        | zero => exact ⟨[], by simpa [dropBytes?] using h, rfl⟩
        | succ n =>
            simp only [dropBytes?] at h
            split at h
            · next hc =>
                obtain ⟨front, rfl, hlen⟩ := ih h
                refine ⟨c :: front, rfl, ?_⟩
                simp [hlen]
                omega
            · simp at h
  · rintro ⟨front, rfl, rfl⟩
    induction front with
    | nil => simp [dropBytes?]
    | cons c front ih =>
        have hpos := c.utf8Size_pos
        obtain ⟨k, hk⟩ : ∃ k, c.utf8Size + (encode front).length = k + 1 :=
          ⟨c.utf8Size + (encode front).length - 1, by omega⟩
        have hrest : k + 1 - c.utf8Size = (encode front).length := by omega
        rw [encode_cons, List.length_append, String.length_utf8EncodeChar, hk, List.cons_append,
          dropBytes?, hrest, ih, if_pos (by omega)]

theorem takeBytes?_eq_some {n : Nat} {cs front : List Char} :
    takeBytes? n cs = some front ↔ front <+: cs ∧ (encode front).length = n := by
  constructor
  · intro h
    induction cs generalizing n front with
    | nil =>
        cases n with
        | zero => simp_all [takeBytes?]
        | succ n => simp [takeBytes?] at h
    | cons c cs ih =>
        cases n with
        | zero => simp_all [takeBytes?]
        | succ n =>
            simp only [takeBytes?] at h
            split at h
            · obtain ⟨front', hs, rfl⟩ := Option.map_eq_some_iff.mp h
              obtain ⟨hcs, hlen⟩ := ih hs
              refine ⟨by simpa using hcs, ?_⟩
              simp [hlen]
              omega
            · simp at h
  · rintro ⟨⟨back, rfl⟩, rfl⟩
    induction front with
    | nil => simp [takeBytes?]
    | cons c front ih =>
        have hpos := c.utf8Size_pos
        obtain ⟨k, hk⟩ : ∃ k, c.utf8Size + (encode front).length = k + 1 :=
          ⟨c.utf8Size + (encode front).length - 1, by omega⟩
        have hrest : k + 1 - c.utf8Size = (encode front).length := by omega
        rw [encode_cons, List.length_append, String.length_utf8EncodeChar, hk, List.cons_append,
          takeBytes?, hrest, ih, if_pos (by omega)]
        rfl

end Lexing
