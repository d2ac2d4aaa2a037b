import Lexing.Proofs.Stretch
import Lexing.Shape

/-! How lexemes of each shape are written. Where no stop is a part of a numeral, a
shape is read exactly if the whole run up to the next stop is written that way. -/

namespace Lexing

def IsSign (bs : List UInt8) : Prop := bs = [] ∨ bs = [minusSign]

def IsDigits (bs : List UInt8) : Prop := ∀ b ∈ bs, isDigit b = true

def IsInteger (bs : List UInt8) : Prop :=
  ∃ sign digits, bs = sign ++ digits ∧ IsSign sign ∧ IsDigits digits ∧ digits ≠ []

/-- An optional minus, any digits, a point and at least one digit. -/
def IsDecimal (bs : List UInt8) : Prop :=
  ∃ sign digits places, bs = sign ++ digits ++ decimalPoint :: places ∧
    IsSign sign ∧ IsDigits digits ∧ IsDigits places ∧ places ≠ []

/-- A lexeme that is written in a shape as a whole. -/
def Shape.Fits : Shape → List UInt8 → Prop
  | .integer, bs => IsInteger bs
  | .decimal, bs => IsInteger bs ∨ IsDecimal bs
  | .word, bs => bs ≠ []

/-- No stop is a part of a numeral. -/
def StopSet.NumberFree (stops : StopSet) : Prop :=
  ∀ b ∈ stops, isDigit b = false ∧ b ≠ minusSign ∧ b ≠ decimalPoint

theorem terminated_iff {stops : StopSet} {bs : List UInt8} :
    terminated stops bs = true ↔ ∀ b ∈ bs.head?, b ∈ stops := by
  cases bs with
  | nil => simp [terminated]
  | cons b bs => simp [terminated, StopSet.mem_iff]

theorem isDigit_ne_minus {b : UInt8} (h : isDigit b = true) : b ≠ minusSign := by
  rintro rfl
  exact absurd h (by decide)

theorem isDigit_ne_point {b : UInt8} (h : isDigit b = true) : b ≠ decimalPoint := by
  rintro rfl
  exact absurd h (by decide)

theorem IsInteger.mem_cases {bs : List UInt8} (h : IsInteger bs) {b : UInt8} (hb : b ∈ bs) :
    isDigit b = true ∨ b = minusSign := by
  obtain ⟨sign, digits, rfl, hsign, hdigits, -⟩ := h
  rcases List.mem_append.mp hb with hb | hb
  · rcases hsign with rfl | rfl
    · contradiction
    · exact .inr (List.mem_singleton.mp hb)
  · exact .inl (hdigits b hb)

theorem IsDecimal.mem_cases {bs : List UInt8} (h : IsDecimal bs) {b : UInt8} (hb : b ∈ bs) :
    isDigit b = true ∨ b = minusSign ∨ b = decimalPoint := by
  obtain ⟨sign, digits, places, rfl, hsign, hdigits, hplaces, -⟩ := h
  simp only [List.mem_append, List.mem_cons] at hb
  rcases hb with (hb | hb) | rfl | hb
  · rcases hsign with rfl | rfl
    · contradiction
    · exact .inr (.inl (List.mem_singleton.mp hb))
  · exact .inl (hdigits b hb)
  · exact .inr (.inr rfl)
  · exact .inl (hplaces b hb)

theorem IsInteger.ne_nil {bs : List UInt8} (h : IsInteger bs) : bs ≠ [] := by
  obtain ⟨sign, digits, rfl, -, -, hne⟩ := h
  exact List.append_ne_nil_of_right_ne_nil sign hne

theorem IsInteger.point_not_mem {bs : List UInt8} (h : IsInteger bs) : decimalPoint ∉ bs := by
  intro hmem
  rcases h.mem_cases hmem with hdigit | hminus
  · exact isDigit_ne_point hdigit rfl
  · exact absurd hminus (by decide)

theorem IsDecimal.point_mem {bs : List UInt8} (h : IsDecimal bs) : decimalPoint ∈ bs := by
  obtain ⟨sign, digits, places, rfl, -⟩ := h
  exact List.mem_append_right _ List.mem_cons_self

theorem IsDecimal.ne_nil {bs : List UInt8} (h : IsDecimal bs) : bs ≠ [] :=
  List.ne_nil_of_mem h.point_mem

/-- The sign and the digits at the head of the bytes, both perhaps empty. -/
structure Numeral (sign digits tail : List UInt8) : Prop where
  isSign : IsSign sign
  no_minus : sign = [] → (digits ++ tail).head? ≠ some minusSign
  run : Stretch isDigit digits tail

namespace Numeral

variable {stops : StopSet} {sign digits tail : List UInt8}

theorem exists_eq_append (bs : List UInt8) :
    ∃ sign digits tail, bs = sign ++ digits ++ tail ∧ Numeral sign digits tail := by
  by_cases hminus : bs.head? = some minusSign
  · obtain ⟨rest, rfl⟩ := List.head?_eq_some_iff.mp hminus
    obtain ⟨digits, tail, rfl, hdigits⟩ := Stretch.exists_eq_append isDigit rest
    exact ⟨[minusSign], digits, tail, rfl, .inr rfl, fun h => by contradiction, hdigits⟩
  · obtain ⟨digits, tail, rfl, hdigits⟩ := Stretch.exists_eq_append isDigit bs
    exact ⟨[], digits, tail, rfl, .inl rfl, fun _ => hminus, hdigits⟩

theorem signLength_eq (h : Numeral sign digits tail) :
    signLength (sign ++ digits ++ tail) = sign.length := by
  rw [signLength, List.append_assoc]
  rcases h.isSign with rfl | rfl
  · rw [List.nil_append, if_neg (h.no_minus rfl), List.length_nil]
  · rfl

theorem digitCount_eq (h : Numeral sign digits tail) :
    digitCount ((sign ++ digits ++ tail).drop sign.length) = digits.length := by
  rw [digitCount, List.append_assoc, List.drop_left, h.run.takeWhile_eq]

theorem drop_eq : (sign ++ digits ++ tail).drop (sign.length + digits.length) = tail := by
  rw [← List.length_append, List.drop_left]

theorem integerLength?_eq (h : Numeral sign digits tail) :
    Shape.integerLength? stops (sign ++ digits ++ tail) =
      if digits ≠ [] ∧ terminated stops tail = true then some (sign ++ digits).length
      else none := by
  rw [Shape.integerLength?, h.signLength_eq, h.digitCount_eq, drop_eq, List.length_append]
  simp only [ne_eq, List.length_eq_zero_iff]

theorem decimalLength?_of_point {places : List UInt8}
    (h : Numeral sign digits (decimalPoint :: (places ++ tail)))
    (hplaces : Stretch isDigit places tail) :
    Shape.decimalLength? stops (sign ++ digits ++ decimalPoint :: (places ++ tail)) =
      if places ≠ [] ∧ terminated stops tail = true then
        some (sign ++ digits ++ decimalPoint :: places).length
      else none := by
  have hdrop : (sign ++ digits ++ decimalPoint :: (places ++ tail)).drop
      (sign.length + digits.length + 1) = places ++ tail := by
    rw [← List.drop_drop, drop_eq, List.drop_one, List.tail_cons]
  have hcount : digitCount (places ++ tail) = places.length := by
    rw [digitCount, hplaces.takeWhile_eq]
  have hend : (sign ++ digits ++ decimalPoint :: (places ++ tail)).drop
      (sign.length + digits.length + 1 + places.length) = tail := by
    rw [← List.drop_drop, hdrop, List.drop_left]
  have hlen : (sign ++ digits ++ decimalPoint :: places).length =
      sign.length + digits.length + 1 + places.length := by
    simp only [List.length_append, List.length_cons]
    omega
  rw [Shape.decimalLength?, h.signLength_eq, h.digitCount_eq, drop_eq, if_pos List.head?_cons,
    hdrop, hcount, hlen]
  simp only [hend, ne_eq, List.length_eq_zero_iff]

theorem decimalLength?_of_no_point (h : Numeral sign digits tail)
    (hpoint : tail.head? ≠ some decimalPoint) :
    Shape.decimalLength? stops (sign ++ digits ++ tail) =
      if digits ≠ [] ∧ terminated stops tail = true then some (sign ++ digits).length
      else none := by
  rw [Shape.decimalLength?, h.signLength_eq, h.digitCount_eq, drop_eq, if_neg hpoint,
    List.length_append]
  simp only [ne_eq, List.length_eq_zero_iff]

end Numeral

section Terminated

variable {stops : StopSet} {bs run tail : List UInt8} {n : Nat}

theorem stretch_of_terminated (hrun : ∀ b ∈ run, b ∉ stops)
    (htail : terminated stops tail = true) : Stretch (fun b => !stops.contains b) run tail := by
  constructor
  · intro b hb
    have hnot := hrun b hb
    rw [StopSet.mem_iff] at hnot
    simpa using hnot
  · intro b hb
    have hmem := terminated_iff.mp htail b hb
    rw [StopSet.mem_iff.mp hmem]
    rfl

theorem Stretch.not_mem_stops (h : Stretch (fun b => !stops.contains b) run tail) :
    ∀ b ∈ run, b ∉ stops := by
  intro b hb hstop
  have hgo := h.all b hb
  rw [StopSet.mem_iff.mp hstop] at hgo
  contradiction

theorem Stretch.terminated (h : Stretch (fun b => !stops.contains b) run tail) :
    terminated stops tail = true := by
  rw [terminated_iff]
  intro b hb
  exact StopSet.mem_iff.mpr (by simpa using h.stop b hb)

theorem IsDigits.head_ne_minus {digits : List UInt8} (h : IsDigits digits)
    (htail : digits = [] → tail.head? ≠ some minusSign) :
    (digits ++ tail).head? ≠ some minusSign := by
  cases digits with
  | nil => exact htail rfl
  | cons d digits =>
    intro hminus
    exact isDigit_ne_minus (h d List.mem_cons_self) (Option.some.inj hminus)

theorem IsInteger.numeral (h : IsInteger run) (htail : ∀ b ∈ tail.head?, isDigit b = false) :
    ∃ sign digits, run = sign ++ digits ∧ Numeral sign digits tail ∧ digits ≠ [] := by
  obtain ⟨sign, digits, rfl, hsign, hdigits, hne⟩ := h
  have hminus : (digits ++ tail).head? ≠ some minusSign :=
    hdigits.head_ne_minus fun hempty => absurd hempty hne
  exact ⟨sign, digits, rfl, ⟨hsign, fun _ => hminus, hdigits, htail⟩, hne⟩

theorem IsDecimal.numeral (h : IsDecimal run) (htail : ∀ b ∈ tail.head?, isDigit b = false) :
    ∃ sign digits places, run = sign ++ digits ++ decimalPoint :: places ∧
      Numeral sign digits (decimalPoint :: (places ++ tail)) ∧ Stretch isDigit places tail ∧
      places ≠ [] := by
  obtain ⟨sign, digits, places, rfl, hsign, hdigits, hplaces, hne⟩ := h
  have hpoint : isDigit decimalPoint = false := rfl
  have hrun : Stretch isDigit digits (decimalPoint :: (places ++ tail)) :=
    ⟨hdigits, fun b hb => by rw [← Option.some.inj hb]; exact hpoint⟩
  have hminus : (digits ++ decimalPoint :: (places ++ tail)).head? ≠ some minusSign :=
    hdigits.head_ne_minus fun _ hhead => absurd (Option.some.inj hhead) (by decide)
  exact ⟨sign, digits, places, rfl, ⟨hsign, fun _ => hminus, hrun⟩, ⟨hplaces, htail⟩, hne⟩

theorem integerLength?_of_isInteger (h : IsInteger run)
    (hdigit : ∀ b ∈ tail.head?, isDigit b = false) (htail : terminated stops tail = true) :
    Shape.integerLength? stops (run ++ tail) = some run.length := by
  obtain ⟨sign, digits, rfl, hnum, hne⟩ := h.numeral hdigit
  rw [hnum.integerLength?_eq, if_pos ⟨hne, htail⟩]

theorem decimalLength?_of_isInteger (h : IsInteger run)
    (hdigit : ∀ b ∈ tail.head?, isDigit b = false) (hpoint : tail.head? ≠ some decimalPoint)
    (htail : terminated stops tail = true) :
    Shape.decimalLength? stops (run ++ tail) = some run.length := by
  obtain ⟨sign, digits, rfl, hnum, hne⟩ := h.numeral hdigit
  rw [hnum.decimalLength?_of_no_point hpoint, if_pos ⟨hne, htail⟩]

theorem decimalLength?_of_isDecimal (h : IsDecimal run)
    (hdigit : ∀ b ∈ tail.head?, isDigit b = false) (htail : terminated stops tail = true) :
    Shape.decimalLength? stops (run ++ tail) = some run.length := by
  obtain ⟨sign, digits, places, rfl, hnum, hplaces, hne⟩ := h.numeral hdigit
  rw [List.append_assoc, List.cons_append, hnum.decimalLength?_of_point hplaces,
    if_pos ⟨hne, htail⟩]

theorem isInteger_of_integerLength? (h : Shape.integerLength? stops bs = some n) :
    ∃ run tail, bs = run ++ tail ∧ IsInteger run ∧ terminated stops tail = true ∧
      n = run.length := by
  obtain ⟨sign, digits, tail, rfl, hnum⟩ := Numeral.exists_eq_append bs
  rw [hnum.integerLength?_eq] at h
  split at h
  · next hcond =>
    have hint : IsInteger (sign ++ digits) :=
      ⟨sign, digits, rfl, hnum.isSign, hnum.run.all, hcond.1⟩
    exact ⟨sign ++ digits, tail, rfl, hint, hcond.2, (Option.some.inj h).symm⟩
  · contradiction

theorem isDecimal_of_decimalLength? (h : Shape.decimalLength? stops bs = some n) :
    ∃ run tail, bs = run ++ tail ∧ (IsInteger run ∨ IsDecimal run) ∧
      terminated stops tail = true ∧ n = run.length := by
  obtain ⟨sign, digits, tail, rfl, hnum⟩ := Numeral.exists_eq_append bs
  by_cases hpoint : tail.head? = some decimalPoint
  · obtain ⟨rest, rfl⟩ := List.head?_eq_some_iff.mp hpoint
    obtain ⟨places, tail, rfl, hplaces⟩ := Stretch.exists_eq_append isDigit rest
    rw [hnum.decimalLength?_of_point hplaces] at h
    split at h
    · next hcond =>
      have hdec : IsDecimal (sign ++ digits ++ decimalPoint :: places) :=
        ⟨sign, digits, places, rfl, hnum.isSign, hnum.run.all, hplaces.all, hcond.1⟩
      exact ⟨_, tail, by simp, .inr hdec, hcond.2, (Option.some.inj h).symm⟩
    · contradiction
  · rw [hnum.decimalLength?_of_no_point hpoint] at h
    split at h
    · next hcond =>
      have hint : IsInteger (sign ++ digits) :=
        ⟨sign, digits, rfl, hnum.isSign, hnum.run.all, hcond.1⟩
      exact ⟨sign ++ digits, tail, rfl, .inl hint, hcond.2, (Option.some.inj h).symm⟩
    · contradiction

theorem wordLength?_eq_some_iff (h : Stretch (fun b => !stops.contains b) run tail) :
    Shape.wordLength? stops (run ++ tail) = some n ↔ run ≠ [] ∧ n = run.length := by
  rw [Shape.wordLength?, h.takeWhile_eq]
  simp only [ne_eq, List.length_eq_zero_iff]
  split
  · next hne =>
    constructor
    · intro hlen
      exact ⟨hne, (Option.some.inj hlen).symm⟩
    · rintro ⟨-, rfl⟩
      rfl
  · next hempty =>
    constructor
    · intro hlen
      contradiction
    · rintro ⟨hne, -⟩
      contradiction

/-- Whatever the stops are, a lexeme is written in its shape, and a stop or the end comes
behind it. -/
theorem Shape.fits_of_length? {shape : Shape} (h : shape.length? stops bs = some n) :
    ∃ run tail, bs = run ++ tail ∧ shape.Fits run ∧ terminated stops tail = true ∧
      n = run.length := by
  cases shape with
  | integer => exact isInteger_of_integerLength? h
  | decimal => exact isDecimal_of_decimalLength? h
  | word =>
    obtain ⟨run, tail, rfl, hrun⟩ :=
      Stretch.exists_eq_append (fun b => !stops.contains b) bs
    obtain ⟨hne, rfl⟩ := (wordLength?_eq_some_iff hrun).mp h
    exact ⟨run, tail, rfl, hne, hrun.terminated, rfl⟩

theorem Shape.Fits.ne_nil {shape : Shape} (h : shape.Fits run) : run ≠ [] := by
  cases shape with
  | integer => exact IsInteger.ne_nil h
  | decimal => exact h.elim IsInteger.ne_nil IsDecimal.ne_nil
  | word => exact h

end Terminated

section NumberFree

variable {stops : StopSet} {run tail : List UInt8}

theorem IsInteger.not_mem (hfree : stops.NumberFree) {bs : List UInt8} (h : IsInteger bs) :
    ∀ b ∈ bs, b ∉ stops := by
  intro b hb hstop
  obtain ⟨hdigit, hminus, -⟩ := hfree b hstop
  rcases h.mem_cases hb with hb | hb
  · rw [hdigit] at hb
    contradiction
  · exact hminus hb

theorem IsDecimal.not_mem (hfree : stops.NumberFree) {bs : List UInt8} (h : IsDecimal bs) :
    ∀ b ∈ bs, b ∉ stops := by
  intro b hb hstop
  obtain ⟨hdigit, hminus, hpoint⟩ := hfree b hstop
  rcases h.mem_cases hb with hb | hb | hb
  · rw [hdigit] at hb
    contradiction
  · exact hminus hb
  · exact hpoint hb

/-- Behind a run up to a stop comes no part of a numeral. -/
theorem Stretch.head_not_digit (hfree : stops.NumberFree)
    (h : Stretch (fun b => !stops.contains b) run tail) : ∀ b ∈ tail.head?, isDigit b = false :=
  fun b hb => (hfree b (terminated_iff.mp h.terminated b hb)).1

theorem integerLength?_eq_some_iff (hfree : stops.NumberFree)
    (h : Stretch (fun b => !stops.contains b) run tail) {n : Nat} :
    Shape.integerLength? stops (run ++ tail) = some n ↔ IsInteger run ∧ n = run.length := by
  constructor
  · intro hlen
    obtain ⟨run', tail', heq, hint, htail, rfl⟩ := isInteger_of_integerLength? hlen
    obtain ⟨rfl, -⟩ := h.unique (stretch_of_terminated (hint.not_mem hfree) htail) heq
    exact ⟨hint, rfl⟩
  · rintro ⟨hint, rfl⟩
    exact integerLength?_of_isInteger hint (h.head_not_digit hfree) h.terminated

theorem decimalLength?_eq_some_iff (hfree : stops.NumberFree)
    (h : Stretch (fun b => !stops.contains b) run tail) {n : Nat} :
    Shape.decimalLength? stops (run ++ tail) = some n ↔
      (IsInteger run ∨ IsDecimal run) ∧ n = run.length := by
  constructor
  · intro hlen
    obtain ⟨run', tail', heq, hnumber, htail, rfl⟩ := isDecimal_of_decimalLength? hlen
    have hnone : ∀ b ∈ run', b ∉ stops :=
      hnumber.elim (fun hint => hint.not_mem hfree) fun hdec => hdec.not_mem hfree
    obtain ⟨rfl, -⟩ := h.unique (stretch_of_terminated hnone htail) heq
    exact ⟨hnumber, rfl⟩
  · rintro ⟨hint | hdec, rfl⟩
    · have hpoint : tail.head? ≠ some decimalPoint := by
        intro hpoint
        exact (hfree _ (terminated_iff.mp h.terminated _ hpoint)).2.2 rfl
      exact decimalLength?_of_isInteger hint (h.head_not_digit hfree) hpoint h.terminated
    · exact decimalLength?_of_isDecimal hdec (h.head_not_digit hfree) h.terminated

/-- A shape is read exactly where the run up to the next stop is written in it. -/
theorem Shape.length?_eq_some_iff (hfree : stops.NumberFree)
    (h : Stretch (fun b => !stops.contains b) run tail) (shape : Shape) {n : Nat} :
    shape.length? stops (run ++ tail) = some n ↔ shape.Fits run ∧ n = run.length := by
  cases shape with
  | integer => exact integerLength?_eq_some_iff hfree h
  | decimal => exact decimalLength?_eq_some_iff hfree h
  | word => exact wordLength?_eq_some_iff h

end NumberFree

section Quoted

variable {quote : UInt8} {body tail : List UInt8}

theorem quotedLength?_eq_some (hbody : quote ∉ body) :
    Shape.quotedLength? quote (quote :: (body ++ quote :: tail)) = some (body.length + 2) := by
  have hrun : Stretch (fun b => decide (b ≠ quote)) body (quote :: tail) :=
    .of_not_mem hbody fun b hb => (Option.some.inj hb).symm
  have hlt : body.length < (body ++ quote :: tail).length := by
    rw [List.length_append, List.length_cons]
    omega
  rw [Shape.quotedLength?, hrun.takeWhile_eq, if_pos ⟨rfl, hlt⟩]

theorem quotedLength?_eq_none (hbody : quote ∉ body) :
    Shape.quotedLength? quote (quote :: body) = none := by
  have hrun : Stretch (fun b => decide (b ≠ quote)) body [] :=
    .of_not_mem hbody fun b hb => by contradiction
  have htake := hrun.takeWhile_eq
  rw [List.append_nil] at htake
  rw [Shape.quotedLength?, htake, if_neg (fun h => Nat.lt_irrefl _ h.2)]

theorem exists_of_quotedLength? {bs : List UInt8} {n : Nat}
    (h : Shape.quotedLength? quote bs = some n) : ∃ body tail,
      bs = quote :: body ++ quote :: tail ∧ quote ∉ body ∧ n = body.length + 2 := by
  cases bs with
  | nil => contradiction
  | cons b rest =>
    by_cases hquote : b = quote
    · subst hquote
      by_cases hmem : b ∈ rest
      · obtain ⟨body, tail, rfl, hbody⟩ := List.eq_append_cons_of_mem hmem
        rw [quotedLength?_eq_some hbody] at h
        exact ⟨body, tail, rfl, hbody, (Option.some.inj h).symm⟩
      · rw [quotedLength?_eq_none hmem] at h
        contradiction
    · rw [Shape.quotedLength?, if_neg fun hboth => hquote hboth.1] at h
      contradiction

end Quoted

end Lexing
