import Lexing.ByteTable

/-! What a set of stops holds, however it is put together: exactly the bytes that are named for
it, in any order and any number of times, and a byte that is not ASCII cannot be named. The same
goes for a table of four words with a bit for every byte, of which the two upper words stay
empty. -/

namespace Lexing

section Bytes

theorem pairwise_ofNat_range {n : Nat} (hn : n ≤ 256) :
    ((List.range n).map UInt8.ofNat).Pairwise (· < ·) := by
  rw [List.pairwise_map]
  refine List.pairwise_lt_range.imp_of_mem fun {i j} hi hj hlt => ?_
  rw [List.mem_range] at hi hj
  rw [UInt8.lt_iff_toNat_lt, UInt8.toNat_ofNat', UInt8.toNat_ofNat']
  omega

theorem mem_ofNat_range {n : Nat} {b : UInt8} (hb : b.toNat < n) :
    b ∈ (List.range n).map UInt8.ofNat :=
  List.mem_map.mpr ⟨b.toNat, List.mem_range.mpr hb, UInt8.ofNat_toNat⟩

end Bytes

namespace StopSet

variable {s t : StopSet}

theorem eq_iff : s = t ↔ ∀ b, s.contains b = t.contains b := by
  constructor
  · rintro rfl b
    rfl
  · intro h
    obtain ⟨x⟩ := s
    obtain ⟨y⟩ := t
    congr 1
    apply BitVec.eq_of_getLsbD_eq
    intro i hi
    have hbit := h (UInt8.ofNat i)
    rwa [contains, contains, UInt8.toNat_ofNat', Nat.mod_eq_of_lt (by omega)] at hbit

theorem mem_toList {b : UInt8} : b ∈ s.toList ↔ b ∈ s := by
  rw [toList, List.mem_filter]
  exact ⟨fun h => h.2, fun h => ⟨mem_ofNat_range (lt_of_mem h), h⟩⟩

theorem pairwise_toList (s : StopSet) : s.toList.Pairwise (· < ·) :=
  (pairwise_ofNat_range (by decide)).filter _

theorem isEmpty_iff : s.isEmpty = true ↔ ∀ b, b ∉ s := by
  have heq : s.isEmpty = true ↔ s = empty := by
    obtain ⟨x⟩ := s
    simp [isEmpty, empty]
  rw [heq, eq_iff]
  refine forall_congr' fun b => ?_
  rw [Bool.eq_false_iff.mpr (not_mem_empty b), Bool.eq_false_iff]
  rfl

end StopSet

namespace ByteTable

variable {t u : ByteTable} {a b : UInt8}

theorem word_empty (i : Fin 4) : empty.word i = 0 := by
  rw [word, Fin.getElem_fin, empty, Vector.getElem_replicate]

theorem word_insert (t : ByteTable) (b : UInt8) (i : Fin 4) :
    (t.insert b).word i = if wordOf b = i then t.word i ||| mask b else t.word i := by
  rw [word, Fin.getElem_fin, insert]
  by_cases hword : wordOf b = i
  · subst hword
    rw [if_pos rfl, Vector.getElem_set_self]
  · rw [if_neg hword, Vector.getElem_set_ne _ _ fun h => hword (Fin.ext h)]
    rfl

theorem word_union (t u : ByteTable) (i : Fin 4) : (t.union u).word i = t.word i ||| u.word i := by
  rw [word, Fin.getElem_fin, union, Vector.getElem_zipWith]
  rfl

theorem eq_of_word (h : ∀ i, t.word i = u.word i) : t = u := by
  have hwords : t.words = u.words := Vector.ext fun i hi => h ⟨i, hi⟩
  obtain ⟨x⟩ := t
  obtain ⟨y⟩ := u
  exact congrArg ByteTable.mk hwords

theorem val_wordOf (b : UInt8) : (wordOf b).val = b.toNat / 64 := by
  show (b >>> 6).toNat = b.toNat / 64
  rw [UInt8.toNat_shiftRight, Nat.shiftRight_eq_div_pow]
  rfl

theorem mask_eq (b : UInt8) : mask b = BitVec.twoPow 64 (b.toNat % 64) := by
  have hbit : (b &&& 63).toNat = b.toNat % 64 := by
    rw [UInt8.toNat_and]
    exact Nat.and_two_pow_sub_one_eq_mod b.toNat 6
  rw [mask, hbit]
  rfl

theorem getLsbD_mask (b : UInt8) (i : Nat) : (mask b).getLsbD i = decide (b.toNat % 64 = i) := by
  rw [mask_eq, BitVec.getLsbD_twoPow]
  have hlt : b.toNat % 64 < 64 := Nat.mod_lt _ (by decide)
  simp [hlt]

/-- A byte is found at its bit alone. -/
theorem contains_eq (t : ByteTable) (b : UInt8) :
    t.contains b = (t.word (wordOf b)).getLsbD (b.toNat % 64) := by
  have hmask : mask b ≠ 0#64 := by
    intro hzero
    have hbit := getLsbD_mask b (b.toNat % 64)
    rw [hzero] at hbit
    simp at hbit
  rw [contains, mask_eq, BitVec.and_twoPow, ← mask_eq]
  split
  · next hbit =>
    rw [hbit, bne_iff_ne]
    exact hmask
  · next hbit =>
    rw [Bool.eq_false_iff.mpr hbit]
    rfl

theorem eq_of_bit (hword : wordOf a = wordOf b) (hbit : a.toNat % 64 = b.toNat % 64) : a = b := by
  have hval := congrArg Fin.val hword
  rw [val_wordOf, val_wordOf] at hval
  rw [← UInt8.toNat_inj]
  omega

theorem contains_empty (b : UInt8) : empty.contains b = false := by
  rw [contains_eq, word_empty]
  exact BitVec.getLsbD_zero

theorem contains_insert : (t.insert b).contains a = true ↔ a = b ∨ t.contains a = true := by
  rw [contains_eq, contains_eq, word_insert]
  split
  · next hword =>
    have hbit : b.toNat % 64 = a.toNat % 64 ↔ a = b :=
      ⟨fun h => (eq_of_bit hword h).symm, fun h => by rw [h]⟩
    rw [BitVec.getLsbD_or, getLsbD_mask, Bool.or_eq_true, decide_eq_true_eq, hbit]
    exact or_comm
  · next hword =>
    -- Another word is as it was.
    have hne : a ≠ b := fun h => hword (by rw [h])
    exact (or_iff_right hne).symm

theorem contains_union :
    (t.union u).contains a = true ↔ t.contains a = true ∨ u.contains a = true := by
  rw [contains_eq, contains_eq, contains_eq, word_union, BitVec.getLsbD_or, Bool.or_eq_true]

/-- Every bit of every word is the bit of some byte. -/
theorem getLsbD_word (t : ByteTable) (i : Fin 4) {j : Nat} (hj : j < 64) :
    (t.word i).getLsbD j = t.contains (UInt8.ofNat (64 * i + j)) := by
  have hval : (UInt8.ofNat (64 * i + j)).toNat = 64 * i + j := by
    rw [UInt8.toNat_ofNat']
    omega
  have hword : wordOf (UInt8.ofNat (64 * i + j)) = i := by
    apply Fin.ext
    rw [val_wordOf, hval]
    omega
  have hbit : (UInt8.ofNat (64 * i + j)).toNat % 64 = j := by omega
  rw [contains_eq, hword, hbit]

theorem eq_iff : t = u ↔ ∀ b, t.contains b = u.contains b := by
  constructor
  · rintro rfl b
    rfl
  · intro h
    refine eq_of_word fun i => BitVec.eq_of_getLsbD_eq fun j hj => ?_
    rw [getLsbD_word t i hj, getLsbD_word u i hj, h]

theorem isEmpty_iff : t.isEmpty = true ↔ ∀ b, t.contains b = false := by
  have heq : t.isEmpty = true ↔ t = empty := by
    rw [isEmpty, Vector.all_eq_true]
    constructor
    · intro h
      refine eq_of_word fun i => ?_
      rw [word_empty]
      exact eq_of_beq (h i i.isLt)
    · rintro rfl i hi
      exact beq_of_eq (word_empty ⟨i, hi⟩)
  rw [heq, eq_iff]
  simp only [contains_empty]

end ByteTable

/-- The set holds these bytes and no others, whichever way it is asked, and the table answers like
the set. -/
structure Holds (bs : List UInt8) (s : StopSet) (t : ByteTable) : Prop where
  contains_iff : ∀ b, s.contains b = true ↔ b ∈ bs
  mem_toList_iff : ∀ b, b ∈ s.toList ↔ b ∈ bs
  ascending : s.toList.Pairwise (· < ·)
  isEmpty_iff : s.isEmpty = true ↔ bs = []
  eq_iff : ∀ s' : StopSet, (s == s') = true ↔ ∀ b, s'.contains b = true ↔ b ∈ bs
  table_contains : ∀ b, t.contains b = s.contains b
  table_toList : t.toList = s.toList
  table_isEmpty : t.isEmpty = s.isEmpty
  table_eq_iff : ∀ t' : ByteTable, (t == t') = true ↔ ∀ b, t'.contains b = true ↔ b ∈ bs
  isAscii_of_contains : ∀ b, t.contains b = true → isAscii b = true
  upper_words : t.word 2 = 0 ∧ t.word 3 = 0

section Holds

variable {bs : List UInt8} {s : StopSet} {t : ByteTable}

theorem contains_eq_iff {p q : UInt8 → Bool} (hp : ∀ b, p b = true ↔ b ∈ bs) :
    (∀ b, p b = q b) ↔ ∀ b, q b = true ↔ b ∈ bs := by
  refine forall_congr' fun b => ?_
  rw [Bool.eq_iff_iff, hp b]
  exact Iff.comm

theorem word_upper (h : ∀ b, t.contains b = s.contains b) {i : Fin 4} (hi : 2 ≤ i) :
    t.word i = 0 := by
  refine BitVec.eq_of_getLsbD_eq fun j hj => ?_
  have hzero : (0 : BitVec 64).getLsbD j = false := BitVec.getLsbD_zero
  rw [t.getLsbD_word i hj, h, hzero, Bool.eq_false_iff]
  intro hmem
  have hlt := StopSet.lt_of_mem hmem
  rw [UInt8.toNat_ofNat'] at hlt
  omega

theorem toList_eq (h : ∀ b, t.contains b = s.contains b) : t.toList = s.toList := by
  have hcontains : t.contains = s.contains := funext h
  have hupper : (((List.range 128).map (128 + ·)).map UInt8.ofNat).filter s.contains = [] := by
    rw [List.filter_eq_nil_iff]
    intro b hb hmem
    have hlt := StopSet.lt_of_mem hmem
    simp only [List.map_map, List.mem_map, List.mem_range] at hb
    obtain ⟨i, hi, rfl⟩ := hb
    rw [Function.comp_apply, UInt8.toNat_ofNat'] at hlt
    omega
  rw [ByteTable.toList, StopSet.toList, hcontains, show 256 = 128 + 128 from rfl, List.range_add,
    List.map_append, List.filter_append, hupper, List.append_nil]

theorem holds_of_mem (hs : ∀ b, b ∈ s ↔ b ∈ bs) (ht : ∀ b, t.contains b = true ↔ b ∈ bs) :
    Holds bs s t := by
  have heq : ∀ b, t.contains b = s.contains b := (contains_eq_iff ht).mpr hs
  have hempty : s.isEmpty = true ↔ bs = [] := by
    rw [StopSet.isEmpty_iff, List.eq_nil_iff_forall_not_mem]
    simp only [hs]
  refine
    { contains_iff := hs
      mem_toList_iff := fun b => StopSet.mem_toList.trans (hs b)
      ascending := s.pairwise_toList
      isEmpty_iff := hempty
      eq_iff := fun s' => ?_
      table_contains := heq
      table_toList := toList_eq heq
      table_isEmpty := ?_
      table_eq_iff := fun t' => ?_
      isAscii_of_contains := fun b hb => StopSet.isAscii_of_mem ((heq b).symm.trans hb)
      upper_words := ⟨word_upper heq (by decide), word_upper heq (by decide)⟩ }
  · rw [beq_iff_eq, StopSet.eq_iff, contains_eq_iff hs]
  · rw [Bool.eq_iff_iff, ByteTable.isEmpty_iff, hempty, List.eq_nil_iff_forall_not_mem]
    simp only [← ht, Bool.not_eq_true]
  · rw [beq_iff_eq, ByteTable.eq_iff, contains_eq_iff ht]

end Holds

/-- Both lists name a byte that is refused, or they name the same bytes. -/
def Alike (bs cs : List UInt8) : Prop :=
  ((∃ b ∈ bs, isAscii b = false) ∧ ∃ b ∈ cs, isAscii b = false) ∨ ∀ b, b ∈ bs ↔ b ∈ cs

theorem Alike.symm {bs cs : List UInt8} (h : Alike bs cs) : Alike cs bs :=
  h.imp And.symm fun hsame b => (hsame b).symm

/-- What building comes to: one of the named bytes is refused, or they are held and no others
are. -/
inductive Built (bs : List UInt8) : Except Misuse StopSet → Except Misuse ByteTable → Prop
  | refused {b} : b ∈ bs → isAscii b = false →
      Built bs (.error .nonAsciiStop) (.error .nonAsciiStop)
  | held {s t} : (∀ b ∈ bs, isAscii b = true) → Holds bs s t → Built bs (.ok s) (.ok t)

namespace Built

variable {bs cs : List UInt8} {s s' : Except Misuse StopSet} {t t' : Except Misuse ByteTable}

theorem empty : Built [] (.ok .empty) (.ok .empty) := by
  refine .held (by simp) (holds_of_mem (fun b => ?_) fun b => ?_)
  · exact iff_of_false (StopSet.not_mem_empty b) List.not_mem_nil
  · rw [ByteTable.contains_empty]
    simp

theorem insert (h : Built bs s t) (b : UInt8) : Built (bs ++ [b])
    (s >>= fun s => s.insertAscii b) (t >>= fun t => t.insertAscii b) := by
  cases h with
  | refused hmem hb => exact .refused (List.mem_append_left _ hmem) hb
  | @held s t hascii hold =>
    show Built (bs ++ [b]) (s.insertAscii b) (t.insertAscii b)
    rw [StopSet.insertAscii, ByteTable.insertAscii]
    by_cases hb : isAscii b = true
    · rw [if_pos hb, if_pos hb]
      refine .held ?_ (holds_of_mem (fun a => ?_) fun a => ?_)
      · intro a ha
        rcases List.mem_append.mp ha with ha | ha
        · exact hascii a ha
        · rwa [List.mem_singleton.mp ha]
      · rw [StopSet.mem_insert hb, List.mem_append, List.mem_singleton, or_comm]
        exact or_congr_left (hold.contains_iff a)
      · rw [ByteTable.contains_insert, List.mem_append, List.mem_singleton, or_comm,
          hold.table_contains, hold.contains_iff]
    · rw [if_neg hb, if_neg hb]
      exact .refused (List.mem_append_right _ (List.mem_singleton_self b))
        (Bool.eq_false_iff.mpr hb)

/-- Byte by byte, from whatever is held already. -/
theorem insertAll (h : Built bs s t) (cs : List UInt8) : Built (bs ++ cs)
    (s >>= fun s => cs.foldlM StopSet.insertAscii s)
    (t >>= fun t => cs.foldlM ByteTable.insertAscii t) := by
  induction cs generalizing bs s t with
  | nil => simpa using h
  | cons c cs ih =>
    have hrest := ih (h.insert c)
    rw [List.append_assoc, List.singleton_append, bind_assoc, bind_assoc] at hrest
    simpa only [List.foldlM_cons] using hrest

theorem ofAscii (bs : List UInt8) : Built bs (StopSet.ofAscii bs) (ByteTable.ofAscii bs) :=
  empty.insertAll bs

theorem union (h : Built bs s t) (h' : Built cs s' t') : Built (bs ++ cs)
    (s >>= fun s => s' >>= fun s' => .ok (s.union s'))
    (t >>= fun t => t' >>= fun t' => .ok (t.union t')) := by
  cases h with
  | refused hmem hb => exact .refused (List.mem_append_left _ hmem) hb
  | @held s t hascii hold =>
    cases h' with
    | refused hmem hb => exact .refused (List.mem_append_right _ hmem) hb
    | @held s' t' hascii' hold' =>
      refine .held ?_ (holds_of_mem (fun a => ?_) fun a => ?_)
      · exact List.forall_mem_append.mpr ⟨hascii, hascii'⟩
      · rw [StopSet.mem_union, List.mem_append]
        exact or_congr (hold.contains_iff a) (hold'.contains_iff a)
      · rw [ByteTable.contains_union, List.mem_append, hold.table_contains, hold.contains_iff,
          hold'.table_contains, hold'.contains_iff]

theorem error_iff (h : Built bs s t) :
    s = .error .nonAsciiStop ∧ t = .error .nonAsciiStop ↔ ∃ b ∈ bs, isAscii b = false := by
  cases h with
  | @refused b hmem hb => exact iff_of_true ⟨rfl, rfl⟩ ⟨b, hmem, hb⟩
  | held hascii hold =>
    refine iff_of_false nofun ?_
    rintro ⟨b, hmem, hb⟩
    exact absurd (hascii b hmem) (Bool.eq_false_iff.mp hb)

theorem ok_iff (h : Built bs s t) :
    (∃ set table, s = .ok set ∧ t = .ok table ∧ Holds bs set table) ↔
      ∀ b ∈ bs, isAscii b = true := by
  cases h with
  | @refused b hmem hb =>
    refine iff_of_false nofun fun hascii => ?_
    exact absurd (hascii b hmem) (Bool.eq_false_iff.mp hb)
  | held hascii hold => exact iff_of_true ⟨_, _, rfl, rfl, hold⟩ hascii

/-- Where all bytes of one list can be held and one of the other is refused, they differ. -/
theorem not_alike {b : UInt8} (hascii : ∀ b ∈ bs, isAscii b = true) (hmem : b ∈ cs)
    (hb : isAscii b = false) : ¬ Alike bs cs := by
  rintro (⟨⟨a, ha, hnot⟩, -⟩ | hsame)
  · exact absurd (hascii a ha) (Bool.eq_false_iff.mp hnot)
  · exact absurd (hascii b ((hsame b).mpr hmem)) (Bool.eq_false_iff.mp hb)

theorem eq_iff (h : Built bs s t) (h' : Built cs s' t') :
    (s = s' ↔ Alike bs cs) ∧ (t = t' ↔ Alike bs cs) := by
  cases h with
  | @refused b hmem hb =>
    cases h' with
    | @refused b' hmem' hb' =>
      have halike : Alike bs cs := .inl ⟨⟨b, hmem, hb⟩, ⟨b', hmem', hb'⟩⟩
      exact ⟨iff_of_true rfl halike, iff_of_true rfl halike⟩
    | held hascii _ =>
      have hnot : ¬ Alike bs cs := fun h => not_alike hascii hmem hb h.symm
      exact ⟨iff_of_false nofun hnot, iff_of_false nofun hnot⟩
  | @held s t hascii hold =>
    cases h' with
    | refused hmem hb =>
      have hnot := not_alike hascii hmem hb
      exact ⟨iff_of_false nofun hnot, iff_of_false nofun hnot⟩
    | @held s' t' hascii' hold' =>
      have hsame : Alike bs cs ↔ ∀ b, b ∈ cs ↔ b ∈ bs := by
        constructor
        · rintro (⟨⟨b, hmem, hb⟩, -⟩ | hsame) a
          · exact absurd (hascii b hmem) (Bool.eq_false_iff.mp hb)
          · exact (hsame a).symm
        · exact fun h => .inr fun a => (h a).symm
      rw [Except.ok.injEq, Except.ok.injEq, ← beq_iff_eq, hold.eq_iff, ← beq_iff_eq (a := t),
        hold.table_eq_iff, hsame]
      simp only [hold'.contains_iff, hold'.table_contains, and_self, iff_self]

end Built

/-- The set and the table are built or refused together. -/
theorem Recipe.built (recipe : Recipe) : Built recipe.named recipe.set recipe.table := by
  -- A byte that is refused in one part is refused in the whole, so every case keeps the relation.
  induction recipe with
  | empty => exact .empty
  | whitespace => exact .ofAscii [32, 9, 10, 13]
  | ofAscii bs => exact .ofAscii bs
  | insert recipe b ih => exact ih.insert b
  | union left right ihl ihr => exact ihl.union ihr

/-- Building fails exactly if a byte is named that is not ASCII. Otherwise the set and the table
hold the named bytes and no others, and nothing else about the recipe can be told from them. -/
theorem recipe_exact (recipe : Recipe) :
    (recipe.set = .error .nonAsciiStop ∧ recipe.table = .error .nonAsciiStop ↔
      ∃ b ∈ recipe.named, isAscii b = false) ∧
    ((∃ s t, recipe.set = .ok s ∧ recipe.table = .ok t ∧ Holds recipe.named s t) ↔
      ∀ b ∈ recipe.named, isAscii b = true) ∧
    ∀ other : Recipe, (recipe.set = other.set ↔ Alike recipe.named other.named) ∧
      (recipe.table = other.table ↔ Alike recipe.named other.named) :=
  ⟨recipe.built.error_iff, recipe.built.ok_iff, fun other => recipe.built.eq_iff other.built⟩

end Lexing
