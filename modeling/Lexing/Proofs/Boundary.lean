import Lexing.Cursor

/-! Offsets between characters. A byte below 128 is a character of its own, so
the offsets on both sides of it are boundaries, and a range between two
boundaries is a text. -/

namespace Lexing

/-- A byte below 128 occurs in the encoding of no character but its own. -/
theorem utf8EncodeChar_of_ascii_mem {c : Char} {b : UInt8} (hb : isAscii b = true)
    (h : b ∈ String.utf8EncodeChar c) : String.utf8EncodeChar c = [b] := by
  have hlt : b.toNat < 128 := by simpa [isAscii, UInt8.lt_iff_toNat_lt] using hb
  revert h
  fun_cases String.utf8EncodeChar c with
  | case1 v hv =>
    intro h
    rw [List.mem_singleton.mp h]
  | case2 v _ hv | case3 v _ _ hv | case4 v _ _ hv =>
    intro h
    exfalso
    simp only [List.mem_cons, List.not_mem_nil, or_false, ← UInt8.toNat_inj,
      UInt8.toNat_ofNat'] at h
    omega

/-- An encoding can be divided before and behind each byte below 128. -/
theorem encode_eq_append_cons {cs : List Char} {front rest : List UInt8} {b : UInt8}
    (hb : isAscii b = true) (h : encode cs = front ++ b :: rest) :
    ∃ as c bs, cs = as ++ c :: bs ∧ encode as = front ∧ String.utf8EncodeChar c = [b] ∧
      encode bs = rest := by
  induction cs generalizing front with
  | nil => simp at h
  | cons c cs ih =>
    rw [encode_cons, List.append_eq_append_iff] at h
    rcases h with ⟨front', rfl, hcs⟩ | ⟨back, hc, hrest⟩
    · obtain ⟨as, d, bs, rfl, rfl, hd, hbs⟩ := ih hcs
      exact ⟨c :: as, d, bs, rfl, rfl, hd, hbs⟩
    · cases back with
      | nil =>
        obtain ⟨as, d, bs, rfl, has, hd, hbs⟩ := @ih [] hrest.symm
        exact ⟨c :: as, d, bs, rfl, by simp [hc, has], hd, hbs⟩
      | cons a back =>
        obtain ⟨rfl, hrest⟩ := List.cons.inj hrest
        have hone := utf8EncodeChar_of_ascii_mem hb (c := c) (by simp [hc])
        rw [hone] at hc
        have hlen := congrArg List.length hc
        simp only [List.length_cons, List.length_append, List.length_nil] at hlen
        have hfront : front = [] := List.eq_nil_of_length_eq_zero (by omega)
        have hback : back = [] := List.eq_nil_of_length_eq_zero (by omega)
        subst hfront hback
        exact ⟨[], c, cs, rfl, rfl, hone, by simpa using hrest.symm⟩

theorem encode_injective {as bs : List Char} (h : encode as = encode bs) : as = bs := by
  have hbytes : as.utf8Encode = bs.utf8Encode := congrArg List.toByteArray h
  apply String.ofList_injective
  rw [← String.toByteArray_inj, String.toByteArray_ofList, String.toByteArray_ofList, hbytes]

/-- Where a byte below 128 stands in an encoding, the character of that byte stands in the
text. -/
theorem encode_eq_append_char {x : Char} {b : UInt8} (hb : isAscii b = true)
    (hx : String.utf8EncodeChar x = [b]) {cs : List Char} {front rest : List UInt8} :
    encode cs = front ++ b :: rest ↔
      ∃ as bs, cs = as ++ x :: bs ∧ encode as = front ∧ encode bs = rest := by
  constructor
  · intro h
    obtain ⟨as, c, bs, rfl, has, hc, hbs⟩ := encode_eq_append_cons hb h
    have hchar : encode [c] = encode [x] := by rw [encode_cons, encode_cons, hc, hx]
    obtain rfl : c = x := List.singleton_inj.mp (encode_injective hchar)
    exact ⟨as, bs, rfl, has, hbs⟩
  · rintro ⟨as, bs, rfl, rfl, rfl⟩
    rw [encode_append, encode_cons, hx]
    rfl

theorem encode_eq_char_cons {x : Char} {b : UInt8} (hb : isAscii b = true)
    (hx : String.utf8EncodeChar x = [b]) {cs : List Char} {rest : List UInt8} :
    encode cs = b :: rest ↔ ∃ back, cs = x :: back ∧ encode back = rest := by
  constructor
  · intro h
    obtain ⟨as, back, rfl, has, hback⟩ := (@encode_eq_append_char x b hb hx cs [] rest).mp h
    obtain rfl : as = [] := encode_injective has
    exact ⟨back, rfl, hback⟩
  · rintro ⟨back, rfl, rfl⟩
    rw [encode_cons, hx]
    rfl

theorem mem_encode_iff {x : Char} {b : UInt8} (hb : isAscii b = true)
    (hx : String.utf8EncodeChar x = [b]) {cs : List Char} : b ∈ encode cs ↔ x ∈ cs := by
  constructor
  · intro h
    obtain ⟨front, rest, hbytes⟩ := List.append_of_mem h
    obtain ⟨as, bs, rfl, -, -⟩ := (encode_eq_append_char hb hx).mp hbytes
    simp
  · intro h
    refine List.mem_flatMap.mpr ⟨x, h, ?_⟩
    rw [hx]
    exact List.mem_singleton_self b

/-- A line feed among the bytes of a text is one of its characters. -/
theorem lineFeed_mem_of_encode {cs : List Char} (h : lineFeed ∈ encode cs) : '\n' ∈ cs :=
  (mem_encode_iff rfl rfl).mp h

theorem eq_nil_of_encode_length {cs : List Char} (h : (encode cs).length = 0) : cs = [] := by
  cases cs with
  | nil => rfl
  | cons c cs =>
    have hpos := c.utf8Size_pos
    rw [encode_cons, List.length_append, String.length_utf8EncodeChar] at h
    omega

namespace Source

/-- The offset is between two characters, or at one of the ends. -/
def Boundary (s : Source) (n : Nat) : Prop :=
  ∃ front back, s.chars = front ++ back ∧ (encode front).length = n

theorem suffix?_eq_some {s : Source} {n : Nat} {back : List Char} :
    s.suffix? n = some back ↔ ∃ front, s.chars = front ++ back ∧ (encode front).length = n :=
  dropBytes?_eq_some

theorem boundary_iff_isSome {s : Source} {n : Nat} :
    s.Boundary n ↔ (s.suffix? n).isSome = true := by
  rw [Option.isSome_iff_exists]
  constructor
  · rintro ⟨front, back, h⟩
    exact ⟨back, suffix?_eq_some.mpr ⟨front, h⟩⟩
  · rintro ⟨back, h⟩
    obtain ⟨front, h⟩ := suffix?_eq_some.mp h
    exact ⟨front, back, h⟩

instance (s : Source) (n : Nat) : Decidable (s.Boundary n) :=
  decidable_of_iff _ boundary_iff_isSome.symm

theorem length_eq (s : Source) : s.length = (encode s.chars).length := by
  rw [length, s.bytes_eq]

theorem boundary_zero (s : Source) : s.Boundary 0 := ⟨[], s.chars, rfl, rfl⟩

theorem boundary_length (s : Source) : s.Boundary s.length :=
  ⟨s.chars, [], by simp, s.length_eq.symm⟩

theorem Boundary.le {s : Source} {n : Nat} (h : s.Boundary n) : n ≤ s.length := by
  obtain ⟨front, back, hs, rfl⟩ := h
  rw [length_eq, hs, encode_append, List.length_append]
  omega

/-- The characters behind a boundary are the bytes behind it. -/
theorem Boundary.suffix {s : Source} {n : Nat} (h : s.Boundary n) :
    ∃ back, s.suffix? n = some back ∧ encode back = s.bytes.drop n := by
  obtain ⟨front, back, hs, rfl⟩ := h
  refine ⟨back, suffix?_eq_some.mpr ⟨front, hs, rfl⟩, ?_⟩
  rw [s.bytes_eq, hs, encode_append, List.drop_left]

/-- Both sides of a byte below 128 are boundaries. -/
theorem boundary_of_drop_eq_cons {s : Source} {n : Nat} {b : UInt8} {rest : List UInt8}
    (hb : isAscii b = true) (h : s.bytes.drop n = b :: rest) :
    s.Boundary n ∧ s.Boundary (n + 1) := by
  have hn : n ≤ s.bytes.length := by
    have := congrArg List.length h
    simp only [List.length_drop, List.length_cons] at this
    omega
  have hs : encode s.chars = s.bytes.take n ++ b :: rest := by
    rw [← h, List.take_append_drop, s.bytes_eq]
  obtain ⟨as, c, bs, hcs, has, hc, -⟩ := encode_eq_append_cons hb hs
  have hlen : (encode as).length = n := by rw [has, List.length_take_of_le hn]
  refine ⟨⟨as, c :: bs, hcs, hlen⟩, ⟨as ++ [c], bs, by simp [hcs], ?_⟩⟩
  simp [encode_append, hc, hlen]

/-- The bytes between two boundaries are a text. -/
theorem Boundary.cut {s : Source} {start stop : Nat} (hstart : s.Boundary start)
    (hstop : s.Boundary stop) (hle : start ≤ stop) :
    ∃ text, s.cut? start stop = some text ∧
      encode text.toList = (s.bytes.drop start).take (stop - start) := by
  obtain ⟨back, hback, hbytes⟩ := hstart.suffix
  obtain ⟨rest, hrest, hrestBytes⟩ := hstop.suffix
  obtain ⟨front, hs, hlen⟩ := suffix?_eq_some.mp hback
  obtain ⟨front', hs', hlen'⟩ := suffix?_eq_some.mp hrest
  obtain ⟨text, rfl, rfl⟩ : ∃ text, front' = front ++ text ∧ back = text ++ rest := by
    rw [hs] at hs'
    rcases List.append_eq_append_iff.mp hs' with ⟨text, h₁, h₂⟩ | ⟨text, h₁, h₂⟩
    · exact ⟨text, h₁, h₂⟩
    · rw [h₁, encode_append, List.length_append] at hlen
      have htext : text = [] := eq_nil_of_encode_length (by omega)
      subst htext
      exact ⟨[], by simpa using h₁.symm, by simpa using h₂.symm⟩
  have htext : (encode text).length = stop - start := by
    rw [encode_append, List.length_append] at hlen'
    omega
  refine ⟨String.ofList text, ?_, ?_⟩
  · have htake : takeBytes? (stop - start) (text ++ rest) = some text :=
      takeBytes?_eq_some.mpr ⟨List.prefix_append _ _, htext⟩
    simp [cut?, hback, htake]
  · rw [← hbytes, ← htext, encode_append, List.take_left, String.toList_ofList]

/-- Only ranges between boundaries are texts. -/
theorem boundary_of_cut {s : Source} {start stop : Nat} {text : String} (hle : start ≤ stop)
    (h : s.cut? start stop = some text) : s.Boundary start ∧ s.Boundary stop := by
  obtain ⟨back, hback, htake⟩ := Option.bind_eq_some_iff.mp h
  obtain ⟨front, hs, hlen⟩ := suffix?_eq_some.mp hback
  obtain ⟨chars, hchars, -⟩ := Option.map_eq_some_iff.mp htake
  obtain ⟨⟨rest, rfl⟩, hcharsLen⟩ := takeBytes?_eq_some.mp hchars
  refine ⟨⟨front, chars ++ rest, hs, hlen⟩, ⟨front ++ chars, rest, by simp [hs], ?_⟩⟩
  rw [encode_append, List.length_append]
  omega

end Source

end Lexing
