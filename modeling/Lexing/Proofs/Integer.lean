import Mathlib.Data.Nat.Digits.Defs
import Lexing.Proofs.Conversion

/-! The numbers that integer numerals stand for. Each digit counts by its place, and the
conversion of a numeral comes to the same number whatever its length is, so that it fails
exactly where that number is none of the type or the type admits no minus. -/

namespace Lexing

/-- The number that digits stand for, the last of them counting ones. -/
def placeValue (digits : List UInt8) : Nat :=
  Nat.ofDigits 10 (digits.reverse.map fun b => b.toNat - 48)

/-- A numeral and the number that it stands for. -/
inductive Denotes : List UInt8 → Int → Prop
  | plain {digits} : IsDigits digits → digits ≠ [] → Denotes digits (placeValue digits)
  | negative {digits} : IsDigits digits → digits ≠ [] →
      Denotes (minusSign :: digits) (-(placeValue digits : Int))

/-- A number of a type, written in a way that the type admits. -/
structure IntegerType.Admits (type : IntegerType) (bs : List UInt8) (v : Int) : Prop where
  denotes : Denotes bs v
  least_le : type.least ≤ v
  le_greatest : v ≤ type.greatest
  no_minus : type.signed = false → minusSign ∉ bs

def ConversionError.inText (text : String) (position : Position) :
    ConversionError → ConversionError
  | .malformed _ expected _ => .malformed text expected position
  | .outOfRange _ _ => .outOfRange text position

def zeroDigit : UInt8 := 48

/-- Every token is converted to the number that its text stands for, or to the error that says
why there is none in the type. The zeros stand in front of `rest`, which need not be digits: what
is no numeral is none with zeros either. -/
structure IntegerType.Exact (type : IntegerType) (τ : Type) : Prop where
  malformed_iff : ∀ (t : Token τ) text expected place,
    t.toInteger type = .error (.malformed text expected place) ↔
      ¬ IsInteger t.bytes ∧ text = t.data ∧ expected = .integer ∧ place = t.position
  ok_iff : ∀ (t : Token τ) v, t.toInteger type = .ok v ↔ type.Admits t.bytes v
  outOfRange_iff : ∀ (t : Token τ) text place,
    t.toInteger type = .error (.outOfRange text place) ↔
      IsInteger t.bytes ∧ (∀ v, ¬ type.Admits t.bytes v) ∧ text = t.data ∧ place = t.position
  decimal_form : ∀ (t : Token τ) v, type.least ≤ v → v ≤ type.greatest →
    t.text = some (toString v) → t.toInteger type = .ok v
  leading_zeros : ∀ (t t' : Token τ) sign rest n, IsSign sign → rest ≠ [] →
    (sign = [] → rest.head? ≠ some minusSign) → t.bytes = sign ++ rest →
    t'.bytes = sign ++ (List.replicate n zeroDigit ++ rest) →
    t'.toInteger type = (t.toInteger type).mapError (.inText t'.data t'.position)

section PlaceValue

variable {digits : List UInt8}

theorem digitsValue_eq (digits : List UInt8) : digitsValue digits = placeValue digits := by
  rw [placeValue, Nat.ofDigits_eq_foldr, List.foldr_map, List.foldr_reverse, digitsValue]
  simp only [Nat.cast_id, Nat.add_comm]

theorem placeValue_append_singleton (digits : List UInt8) (b : UInt8) :
    placeValue (digits ++ [b]) = 10 * placeValue digits + (b.toNat - 48) := by
  rw [placeValue, List.reverse_append, List.reverse_singleton, List.singleton_append, List.map_cons,
    Nat.ofDigits_cons, Nat.add_comm]
  rfl

theorem placeValue_zeros (n : Nat) (digits : List UInt8) :
    placeValue (List.replicate n zeroDigit ++ digits) = placeValue digits := by
  rw [placeValue, List.reverse_append, List.reverse_replicate, List.map_append, List.map_replicate]
  exact Nat.ofDigits_append_replicate_zero _

theorem isDigits_append_iff {front back : List UInt8} :
    IsDigits (front ++ back) ↔ IsDigits front ∧ IsDigits back := List.forall_mem_append

theorem isDigits_zeros_iff {n : Nat} :
    IsDigits (List.replicate n zeroDigit ++ digits) ↔ IsDigits digits := by
  have hzeros : IsDigits (List.replicate n zeroDigit) := by
    intro b hb
    rw [List.eq_of_mem_replicate hb]
    rfl
  rw [isDigits_append_iff, and_iff_right hzeros]

theorem IsDigits.minus_not_mem (h : IsDigits digits) : minusSign ∉ digits :=
  fun hmem => isDigit_ne_minus (h _ hmem) rfl

end PlaceValue

section Denotes

variable {bs : List UInt8} {v w : Int}

theorem denotes_iff_of_head (hhead : bs.head? ≠ some minusSign) :
    Denotes bs v ↔ IsDigits bs ∧ bs ≠ [] ∧ v = placeValue bs := by
  constructor
  · intro h
    cases h with
    | plain hdigits hne => exact ⟨hdigits, hne, rfl⟩
    | negative => exact absurd rfl hhead
  · rintro ⟨hdigits, hne, rfl⟩
    exact .plain hdigits hne

theorem denotes_minus_iff :
    Denotes (minusSign :: bs) v ↔ IsDigits bs ∧ bs ≠ [] ∧ v = -(placeValue bs : Int) := by
  constructor
  · intro h
    cases h with
    | plain hdigits => exact absurd List.mem_cons_self hdigits.minus_not_mem
    | negative hdigits hne => exact ⟨hdigits, hne, rfl⟩
  · rintro ⟨hdigits, hne, rfl⟩
    exact .negative hdigits hne

theorem isInteger_iff_denotes : IsInteger bs ↔ ∃ v, Denotes bs v := by
  constructor
  · rintro ⟨sign, digits, rfl, rfl | rfl, hdigits, hne⟩
    · exact ⟨_, .plain hdigits hne⟩
    · exact ⟨_, .negative hdigits hne⟩
  · rintro ⟨v, h⟩
    cases h with
    | plain hdigits hne => exact ⟨[], bs, rfl, .inl rfl, hdigits, hne⟩
    | negative hdigits hne => exact ⟨[minusSign], _, rfl, .inr rfl, hdigits, hne⟩

theorem IsDigits.head_ne (h : IsDigits bs) : bs.head? ≠ some minusSign :=
  fun hhead => h.minus_not_mem (List.mem_of_mem_head? hhead)

theorem Denotes.isNegative_iff (h : Denotes bs v) : isNegative bs = true ↔ minusSign ∈ bs := by
  rw [isNegative, beq_iff_eq]
  cases h with
  | plain hdigits => exact iff_of_false hdigits.head_ne hdigits.minus_not_mem
  | negative => exact iff_of_true rfl List.mem_cons_self

theorem Denotes.integerValue_eq (h : Denotes bs v) : integerValue bs = v := by
  cases h with
  | plain hdigits =>
    have hsign : signLength bs = 0 := if_neg hdigits.head_ne
    have hminus : isNegative bs = false := beq_eq_false_iff_ne.mpr hdigits.head_ne
    simp only [integerValue, hsign, hminus, List.drop_zero, digitsValue_eq, Bool.false_eq_true,
      if_false]
  | @negative digits =>
    have hsign : signLength (minusSign :: digits) = 1 := rfl
    have hminus : isNegative (minusSign :: digits) = true := rfl
    simp only [integerValue, hsign, hminus, List.drop_one, List.tail_cons, digitsValue_eq, if_true]

theorem Denotes.unique (h : Denotes bs v) (h' : Denotes bs w) : v = w := by
  rw [← h.integerValue_eq, h'.integerValue_eq]

/-- Zeros behind the sign count nothing. -/
theorem denotes_zeros_iff {sign digits : List UInt8} (hsign : IsSign sign) (hne : digits ≠ [])
    (hhead : sign = [] → digits.head? ≠ some minusSign) (n : Nat) :
    Denotes (sign ++ (List.replicate n zeroDigit ++ digits)) v ↔ Denotes (sign ++ digits) v := by
  have hne' : List.replicate n zeroDigit ++ digits ≠ [] :=
    List.append_ne_nil_of_right_ne_nil _ hne
  rcases hsign with rfl | rfl
  · -- Without a sign, no byte that comes to the front may be taken for one.
    have hhead' : (List.replicate n zeroDigit ++ digits).head? ≠ some minusSign := by
      cases n with
      | zero => exact hhead rfl
      | succ n => exact fun h => absurd (Option.some.inj h) (by decide)
    rw [List.nil_append, List.nil_append, denotes_iff_of_head hhead',
      denotes_iff_of_head (hhead rfl), isDigits_zeros_iff, placeValue_zeros]
    simp only [hne, hne', ne_eq, not_false_eq_true]
  · rw [List.singleton_append, List.singleton_append, denotes_minus_iff, denotes_minus_iff,
      isDigits_zeros_iff, placeValue_zeros]
    simp only [hne, hne', ne_eq, not_false_eq_true]

end Denotes

section DecimalForm

/-- The character of a digit is one byte, which has the digit's value. -/
theorem encode_digitChar : ∀ d < 10, encode [Nat.digitChar d] = [UInt8.ofNat (48 + d)] ∧
    isDigit (UInt8.ofNat (48 + d)) = true ∧ (UInt8.ofNat (48 + d)).toNat - 48 = d := by
  decide

theorem placeValue_toDigits (n : Nat) : IsDigits (encode (Nat.toDigits 10 n)) ∧
    encode (Nat.toDigits 10 n) ≠ [] ∧ placeValue (encode (Nat.toDigits 10 n)) = n := by
  induction n using Nat.strongRecOn with
  | ind n ih =>
    rcases Nat.lt_or_ge n 10 with hlt | hge
    · obtain ⟨hbyte, hdigit, hvalue⟩ := encode_digitChar n hlt
      rw [Nat.toDigits_of_lt_base hlt, hbyte]
      refine ⟨by simpa [IsDigits] using hdigit, by simp, ?_⟩
      rw [← List.nil_append [_], placeValue_append_singleton, hvalue]
      exact Nat.zero_add n
    · -- All digits but the last are those of `n / 10`.
      obtain ⟨hdigits, -, hvalue⟩ := ih (n / 10) (Nat.div_lt_self (by omega) (by decide))
      obtain ⟨hbyte, hdigit, hlast⟩ := encode_digitChar (n % 10) (Nat.mod_lt n (by decide))
      rw [Nat.toDigits_of_base_le (by decide) hge, encode_append, hbyte]
      refine ⟨isDigits_append_iff.mpr ⟨hdigits, by simpa [IsDigits] using hdigit⟩, by simp, ?_⟩
      rw [placeValue_append_singleton, hvalue, hlast, Nat.div_add_mod]

/-- The decimal form of a number stands for it, with a minus only if it is negative. -/
theorem denotes_toString (v : Int) : Denotes (encode (toString v).toList) v ∧
    (0 ≤ v → minusSign ∉ encode (toString v).toList) := by
  cases v with
  | ofNat n =>
    obtain ⟨hdigits, hne, hvalue⟩ := placeValue_toDigits n
    have htext : (toString (Int.ofNat n)).toList = Nat.toDigits 10 n := Nat.toList_repr
    rw [htext]
    refine ⟨?_, fun _ => hdigits.minus_not_mem⟩
    rw [denotes_iff_of_head hdigits.head_ne]
    exact ⟨hdigits, hne, congrArg Int.ofNat hvalue.symm⟩
  | negSucc n =>
    obtain ⟨hdigits, hne, hvalue⟩ := placeValue_toDigits (n + 1)
    have htext : encode (toString (Int.negSucc n)).toList =
        minusSign :: encode (Nat.toDigits 10 (n + 1)) := by
      have hrepr : toString (Int.negSucc n) = "-" ++ Nat.repr (n + 1) := rfl
      rw [hrepr, String.toList_append, encode_append, Nat.toList_repr]
      rfl
    rw [htext]
    refine ⟨?_, fun hv => absurd hv (by omega)⟩
    rw [denotes_minus_iff]
    refine ⟨hdigits, hne, ?_⟩
    rw [hvalue]
    rfl

end DecimalForm

section Conversion

variable {type : IntegerType} {bs : List UInt8} {v : Int}

theorem ofNumeral?_eq_some_iff (h : IsInteger bs) :
    type.ofNumeral? bs = some v ↔ type.Admits bs v := by
  obtain ⟨w, hw⟩ := isInteger_iff_denotes.mp h
  simp only [IntegerType.ofNumeral?, hw.integerValue_eq, hw.isNegative_iff]
  split
  · next hcond =>
    refine iff_of_false (by simp) fun hadmits => ?_
    obtain rfl := hw.unique hadmits.denotes
    rcases hcond with ⟨hminus, hunsigned⟩ | hless | hgreater
    · exact hadmits.no_minus (by simpa using hunsigned) hminus
    · exact absurd hadmits.least_le (Int.not_le.mpr hless)
    · exact absurd hadmits.le_greatest (Int.not_le.mpr hgreater)
  · next hcond =>
    simp only [not_or, not_and, Int.not_lt] at hcond
    obtain ⟨hminus, hleast, hgreatest⟩ := hcond
    constructor
    · intro heq
      obtain rfl := Option.some.inj heq
      refine ⟨hw, hleast, hgreatest, fun hunsigned hmem => hminus hmem ?_⟩
      simp [hunsigned]
    · intro hadmits
      rw [hw.unique hadmits.denotes]

variable {τ : Type} {t : Token τ}

theorem toInteger_eq_ok_iff : t.toInteger type = .ok v ↔ type.Admits t.bytes v := by
  rw [Token.toInteger]
  split
  · next hshape =>
    rw [← ofNumeral?_eq_some_iff (Token.isNumeral_integer.mp hshape)]
    cases type.ofNumeral? t.bytes <;> simp
  · next hshape =>
    refine iff_of_false (by simp) fun hadmits => hshape ?_
    exact Token.isNumeral_integer.mpr (isInteger_iff_denotes.mpr ⟨v, hadmits.denotes⟩)

theorem toInteger_eq_outOfRange_iff {text : String} {place : Position} :
    t.toInteger type = .error (.outOfRange text place) ↔
      IsInteger t.bytes ∧ (∀ v, ¬ type.Admits t.bytes v) ∧ text = t.data ∧ place = t.position := by
  rw [Token.toInteger]
  split
  · next hshape =>
    have hint : IsInteger t.bytes := Token.isNumeral_integer.mp hshape
    cases hvalue : type.ofNumeral? t.bytes with
    | some v =>
      refine iff_of_false (by simp) fun h => ?_
      exact h.2.1 v ((ofNumeral?_eq_some_iff hint).mp hvalue)
    | none =>
      have hnone : ∀ v, ¬ type.Admits t.bytes v := by
        intro v hadmits
        rw [(ofNumeral?_eq_some_iff hint).mpr hadmits] at hvalue
        contradiction
      constructor
      · rintro ⟨⟩
        exact ⟨hint, hnone, rfl, rfl⟩
      · rintro ⟨-, -, rfl, rfl⟩
        rfl
  · next hshape => exact iff_of_false (by simp) fun h => hshape (Token.isNumeral_integer.mpr h.1)

/-- A number of the type is admitted in its decimal form. -/
theorem admits_toString (hleast : type.least ≤ v) (hgreatest : v ≤ type.greatest) :
    type.Admits (encode (toString v).toList) v := by
  obtain ⟨hdenotes, hminus⟩ := denotes_toString v
  refine ⟨hdenotes, hleast, hgreatest, fun hunsigned => hminus ?_⟩
  rw [IntegerType.least, hunsigned] at hleast
  exact hleast

theorem admits_zeros_iff {sign digits : List UInt8} (hsign : IsSign sign) (hne : digits ≠ [])
    (hhead : sign = [] → digits.head? ≠ some minusSign) (n : Nat) :
    type.Admits (sign ++ (List.replicate n zeroDigit ++ digits)) v ↔
      type.Admits (sign ++ digits) v := by
  have hminus : minusSign ∈ sign ++ (List.replicate n zeroDigit ++ digits) ↔
      minusSign ∈ sign ++ digits := by
    have hzero : minusSign ∉ List.replicate n zeroDigit :=
      fun hmem => absurd (List.eq_of_mem_replicate hmem) (by decide)
    simp only [List.mem_append, hzero, false_or]
  constructor
  · rintro ⟨hdenotes, hleast, hgreatest, hno⟩
    rw [denotes_zeros_iff hsign hne hhead] at hdenotes
    exact ⟨hdenotes, hleast, hgreatest, fun hunsigned => hno hunsigned ∘ hminus.mpr⟩
  · rintro ⟨hdenotes, hleast, hgreatest, hno⟩
    rw [← denotes_zeros_iff hsign hne hhead n] at hdenotes
    exact ⟨hdenotes, hleast, hgreatest, fun hunsigned => hno hunsigned ∘ hminus.mp⟩

/-- Two texts that stand for the same numbers are converted alike. -/
theorem toInteger_eq_of_admits_iff {t' : Token τ} (hint : IsInteger t'.bytes ↔ IsInteger t.bytes)
    (hadmits : ∀ v, type.Admits t'.bytes v ↔ type.Admits t.bytes v) :
    t'.toInteger type = (t.toInteger type).mapError (.inText t'.data t'.position) := by
  cases h : t.toInteger type with
  | ok v =>
    rw [toInteger_eq_ok_iff, ← hadmits] at h
    exact toInteger_eq_ok_iff.mpr h
  | error e =>
    cases e with
    | malformed text expected place =>
      obtain ⟨hnone, -, rfl, -⟩ := Token.toInteger_eq_malformed_iff.mp h
      exact Token.toInteger_eq_malformed_iff.mpr ⟨hint.not.mpr hnone, rfl, rfl, rfl⟩
    | outOfRange text place =>
      obtain ⟨hsome, hnone, -, -⟩ := toInteger_eq_outOfRange_iff.mp h
      have hnone' : ∀ v, ¬ type.Admits t'.bytes v := fun v => (hadmits v).not.mpr (hnone v)
      exact toInteger_eq_outOfRange_iff.mpr ⟨hint.mpr hsome, hnone', rfl, rfl⟩

end Conversion

/-- A text is converted to its number if the type has it, and otherwise the error says whether
the text is no numeral or the number is out of range. -/
theorem toInteger_exact (type : IntegerType) (τ : Type) : type.Exact τ := by
  constructor
  · exact fun t text expected place => Token.toInteger_eq_malformed_iff
  · exact fun t v => toInteger_eq_ok_iff
  · exact fun t text place => toInteger_eq_outOfRange_iff
  · intro t v hleast hgreatest htext
    have hbytes : t.bytes = encode (toString v).toList := by
      rw [Token.bytes, Token.data, htext]
      rfl
    rw [toInteger_eq_ok_iff, hbytes]
    exact admits_toString hleast hgreatest
  · intro t t' sign rest n hsign hne hhead ht ht'
    apply toInteger_eq_of_admits_iff
    · rw [isInteger_iff_denotes, isInteger_iff_denotes, ht, ht']
      exact exists_congr fun v => denotes_zeros_iff hsign hne hhead n
    · intro v
      rw [ht, ht']
      exact admits_zeros_iff hsign hne hhead n

theorem toInteger_exact_least :
    (Token.mk () (some "-128") .start).toInteger ⟨true, 8⟩ = .ok (-128) ∧
    (Token.mk () (some "-00128") .start).toInteger ⟨true, 8⟩ = .ok (-128) := by
  have hexact := toInteger_exact ⟨true, 8⟩ Unit
  have hplain := hexact.decimal_form ⟨(), some "-128", .start⟩ (-128) (by decide) (by decide) rfl
  have hpadded := hexact.leading_zeros ⟨(), some "-128", .start⟩ ⟨(), some "-00128", .start⟩
    [minusSign] [49, 50, 56] 2 (.inr rfl) (by decide) (by simp) (by decide) (by decide)
  rw [hplain] at hpadded
  exact ⟨hplain, hpadded⟩

/-- Not even zero may have a minus if the type is unsigned. -/
example : (Token.mk () (some "-0") .start).toInteger ⟨false, 8⟩ =
    .error (.outOfRange "-0" .start) := by rfl

end Lexing
