import Lexing.Proofs.Stretch
import Lexing.Text.Quoted

/-! Where a written number or a quoted text ends. Digits end in front of the first character
that is neither letter nor digit, an escaped character by itself and a quoted text at its
second quote, so that what was written can be told whatever follows it. -/

namespace Lexing.Text

section Numbers

variable {b m n : Nat}

theorem digitChar_cases : ∀ m < 16, (Nat.digitChar m).isAlphanum = true ∧
    ∀ n < 16, Nat.digitChar m = Nat.digitChar n → m = n := by
  decide

theorem isAlphanum_of_mem_toDigits (hb : 1 < b) (hle : b ≤ 16) {c : Char}
    (h : c ∈ Nat.toDigits b n) : c.isAlphanum = true := by
  induction n using Nat.strongRecOn with
  | ind n ih =>
    rcases Nat.lt_or_ge n b with hlt | hge
    · rw [Nat.toDigits_of_lt_base hlt, List.mem_singleton] at h
      subst h
      exact (digitChar_cases n (by omega)).1
    · rw [Nat.toDigits_of_base_le hb hge, List.mem_append, List.mem_singleton] at h
      rcases h with h | rfl
      · exact ih _ (Nat.div_lt_self (by omega) hb) h
      · have hmod := Nat.mod_lt n (Nat.zero_lt_of_lt hb)
        exact (digitChar_cases _ (by omega)).1

theorem lineFeed_not_mem_toDigits (hb : 1 < b) (hle : b ≤ 16) : '\n' ∉ Nat.toDigits b n :=
  fun hmem => absurd (isAlphanum_of_mem_toDigits hb hle hmem) (by decide)

theorem one_lt_length_toDigits (hb : 1 < b) (h : b ≤ n) : 1 < (Nat.toDigits b n).length := by
  have hpos : 0 < (Nat.toDigits b (n / b)).length := Nat.length_toDigits_pos
  rw [Nat.toDigits_of_base_le hb h, List.length_append, List.length_singleton]
  omega

/-- Numbers in a base up to 16 are written in different ways. -/
theorem toDigits_injective (hb : 1 < b) (hle : b ≤ 16) (h : Nat.toDigits b m = Nat.toDigits b n) :
    m = n := by
  induction m using Nat.strongRecOn generalizing n with
  | ind m ih =>
    rcases Nat.lt_or_ge m b with hm | hm <;> rcases Nat.lt_or_ge n b with hn | hn
    · rw [Nat.toDigits_of_lt_base hm, Nat.toDigits_of_lt_base hn] at h
      exact (digitChar_cases m (by omega)).2 n (by omega) (List.singleton_inj.mp h)
    · have hlen := one_lt_length_toDigits hb hn
      rw [← h, Nat.toDigits_of_lt_base hm] at hlen
      exact absurd hlen (Nat.lt_irrefl 1)
    · have hlen := one_lt_length_toDigits hb hm
      rw [h, Nat.toDigits_of_lt_base hn] at hlen
      exact absurd hlen (Nat.lt_irrefl 1)
    · rw [Nat.toDigits_of_base_le hb hm, Nat.toDigits_of_base_le hb hn] at h
      obtain ⟨hdiv, hmod⟩ := List.append_inj' h rfl
      have hdiv' := ih _ (Nat.div_lt_self (by omega) hb) hdiv
      have hm' := Nat.mod_lt m (Nat.zero_lt_of_lt hb)
      have hn' := Nat.mod_lt n (Nat.zero_lt_of_lt hb)
      have hmod' := (digitChar_cases _ (by omega)).2 _ (by omega) (List.singleton_inj.mp hmod)
      rw [← Nat.div_add_mod m b, ← Nat.div_add_mod n b, hdiv', hmod']

/-- A number is known from its digits, in front of anything that goes on otherwise. -/
theorem toDigits_unique (hb : 1 < b) (hle : b ≤ 16) {s t : List Char}
    (hs : ∀ c ∈ s.head?, c.isAlphanum = false) (ht : ∀ c ∈ t.head?, c.isAlphanum = false)
    (h : Nat.toDigits b m ++ s = Nat.toDigits b n ++ t) : m = n ∧ s = t := by
  have hrun : ∀ {n s}, (∀ c ∈ s.head?, c.isAlphanum = false) →
      Stretch Char.isAlphanum (Nat.toDigits b n) s :=
    fun hs => ⟨fun c hc => isAlphanum_of_mem_toDigits hb hle hc, hs⟩
  obtain ⟨hdigits, htail⟩ := (hrun hs).unique (hrun ht) h
  exact ⟨toDigits_injective hb hle hdigits, htail⟩

theorem toString_unique {s t : List Char} (hs : ∀ c ∈ s.head?, c.isAlphanum = false)
    (ht : ∀ c ∈ t.head?, c.isAlphanum = false)
    (h : (toString m).toList ++ s = (toString n).toList ++ t) : m = n ∧ s = t := by
  simp only [Nat.toString_eq_repr, Nat.toList_repr] at h
  exact toDigits_unique (by decide) (by decide) hs ht h

end Numbers

/-- The characters with an escape of their own, and the letter behind the backslash. -/
inductive Named : Char → Char → Prop
  | null : Named '\x00' '0'
  | tab : Named '\t' 't'
  | carriageReturn : Named '\r' 'r'
  | lineFeed : Named '\n' 'n'
  | quote : Named '"' '"'
  | backslash : Named '\\' '\\'

/-- The ways in which a character can stand in a quoted text. -/
inductive Escaped : Char → List Char → Prop
  | named {c letter} : Named c letter → Escaped c ['\\', letter]
  | shown {c} : c ≠ '"' → c ≠ '\\' → c ≠ '\n' → Escaped c [c]
  | coded {c} : Escaped c (codeEscape c)

theorem escaped_escape (c : Char) : Escaped c (escape c) := by
  unfold escape
  split
  · exact .named .null
  · exact .named .tab
  · exact .named .carriageReturn
  · exact .named .lineFeed
  · exact .named .quote
  · exact .named .backslash
  · next hfeed hquote hslash =>
    split
    · exact .shown hquote hslash hfeed
    · exact .coded

theorem Named.unique {c d letter : Char} (h : Named c letter) (h' : Named d letter) : c = d := by
  cases h <;> cases h' <;> rfl

/-- No letter starts a code. -/
theorem Named.ne_u {c letter : Char} (h : Named c letter) : letter ≠ 'u' := by
  cases h <;> decide

theorem codeEscape_unique {c d : Char} {s t : List Char}
    (h : codeEscape c ++ s = codeEscape d ++ t) : c = d ∧ s = t := by
  simp only [codeEscape, List.cons_append, List.append_assoc, List.cons.injEq, true_and] at h
  have hclose : ∀ s : List Char, ∀ c ∈ (['}'] ++ s).head?, c.isAlphanum = false := by
    rintro s c ⟨⟩
    rfl
  obtain ⟨hcode, htail⟩ := toDigits_unique (by decide) (by decide) (hclose s) (hclose t) h
  exact ⟨Char.toNat_inj.mp hcode, List.append_cancel_left htail⟩

/-- What stands for a character tells the character, and where it ends. -/
theorem Escaped.unique {c d : Char} {run run' s t : List Char} (h : Escaped c run)
    (h' : Escaped d run') (heq : run ++ s = run' ++ t) : c = d ∧ s = t := by
  cases h with
  | named hc =>
    cases h' with
    | named hd =>
      simp only [List.cons_append, List.nil_append, List.cons.injEq, true_and] at heq
      obtain ⟨rfl, rfl⟩ := heq
      exact ⟨hc.unique hd, rfl⟩
    | shown _ hd _ => exact absurd (List.cons.inj heq).1.symm hd
    | coded => exact absurd (List.cons.inj (List.cons.inj heq).2).1 hc.ne_u
  | shown _ hc _ =>
    cases h' with
    | named _ => exact absurd (List.cons.inj heq).1 hc
    | shown _ _ _ => exact List.cons.inj heq
    | coded => exact absurd (List.cons.inj heq).1 hc
  | coded =>
    cases h' with
    | named hd => exact absurd (List.cons.inj (List.cons.inj heq).2).1.symm hd.ne_u
    | shown _ hd _ => exact absurd (List.cons.inj heq).1.symm hd
    | coded => exact codeEscape_unique heq

/-- Nothing that stands for a character starts with a quote, so none ends the text. -/
theorem Escaped.not_quote {c : Char} {run s t : List Char} (h : Escaped c run) :
    run ++ s ≠ '"' :: t := by
  intro heq
  cases h with
  | named _ => exact absurd (List.cons.inj heq).1 (by decide)
  | shown hc _ _ => exact hc (List.cons.inj heq).1
  | coded => exact absurd (List.cons.inj heq).1 (by decide)

theorem Escaped.lineFeed_not_mem {c : Char} {run : List Char} (h : Escaped c run) :
    '\n' ∉ run := by
  cases h with
  | named hc => cases hc <;> decide
  | shown _ _ hc => exact fun hmem => hc (List.mem_singleton.mp hmem).symm
  | coded =>
    intro hmem
    simp only [codeEscape, List.cons_append, List.mem_cons, List.mem_append] at hmem
    rcases hmem with h | h | h | h | h
    · contradiction
    · contradiction
    · contradiction
    · exact lineFeed_not_mem_toDigits (by decide) (by decide) h
    · exact absurd h (by decide)

/-- Up to the first quote, escaped characters can be told one after another. -/
theorem escaped_unique {cs ds s t : List Char}
    (h : cs.flatMap escape ++ '"' :: s = ds.flatMap escape ++ '"' :: t) : cs = ds ∧ s = t := by
  induction cs generalizing ds with
  | nil =>
    cases ds with
    | nil => exact ⟨rfl, (List.cons.inj h).2⟩
    | cons d ds =>
      rw [List.flatMap_cons, List.append_assoc] at h
      exact absurd h.symm (escaped_escape d).not_quote
  | cons c cs ih =>
    rw [List.flatMap_cons, List.append_assoc] at h
    cases ds with
    | nil => exact absurd h (escaped_escape c).not_quote
    | cons d ds =>
      rw [List.flatMap_cons, List.append_assoc] at h
      obtain ⟨rfl, hrest⟩ := (escaped_escape c).unique (escaped_escape d) h
      obtain ⟨rfl, rfl⟩ := ih hrest
      exact ⟨rfl, rfl⟩

/-- A quoted text can be told in front of anything. -/
theorem quoted_unique {a b : String} {s t : List Char}
    (h : (quoted a).toList ++ s = (quoted b).toList ++ t) : a = b ∧ s = t := by
  simp only [quoted, String.toList_ofList, List.cons_append, List.append_assoc, List.cons.injEq,
    true_and] at h
  obtain ⟨htext, htail⟩ := escaped_unique h
  exact ⟨String.toList_injective htext, htail⟩

/-- Whatever a text holds, it is quoted on one line. -/
theorem lineFeed_not_mem_quoted (s : String) : '\n' ∉ (quoted s).toList := by
  simp only [quoted, String.toList_ofList, List.mem_cons, List.mem_append, List.mem_flatMap,
    List.not_mem_nil, or_false]
  rintro ((h | ⟨c, -, h⟩) | h)
  · exact absurd h (by decide)
  · exact (escaped_escape c).lineFeed_not_mem h
  · exact absurd h (by decide)

end Lexing.Text
