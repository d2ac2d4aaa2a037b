import Lexing.Brace.Grammar
import Lexing.Proofs.Cursor
import Lexing.Proofs.Shape

/-! Gaps between lexemes: whitespace and, where they are part of the language,
comments. Skipping consumes a gap that is followed by none. -/

namespace Lexing.Brace

def blanks : List UInt8 := [32, 9, 10, 13]

def slash : UInt8 := 47

/-- The bytes are a gap in front of others. A comment goes up to the next line
feed, which is not a part of it, or to the end. -/
inductive Gap (comments : Bool) : List UInt8 → List UInt8 → Prop
  | nil {rest} : Gap comments [] rest
  | blank {b gap rest} : b ∈ blanks → Gap comments gap rest → Gap comments (b :: gap) rest
  | comment {body gap rest} : comments = true → lineFeed ∉ body →
      (∀ b ∈ (gap ++ rest).head?, b = lineFeed) → Gap comments gap rest →
      Gap comments (slash :: slash :: (body ++ gap)) rest

structure NoGap (comments : Bool) (bs : List UInt8) : Prop where
  not_blank : ∀ b ∈ bs.head?, b ∉ blanks
  not_comment : comments = true → ¬ [slash, slash] <+: bs

theorem blank_cases {b : UInt8} (h : b ∈ blanks) : b = 32 ∨ b = 9 ∨ b = 10 ∨ b = 13 := by
  simpa [blanks] using h

theorem blank_isAscii {b : UInt8} (h : b ∈ blanks) : isAscii b = true := by
  rcases blank_cases h with rfl | rfl | rfl | rfl <;> rfl

theorem mem_whitespace {b : UInt8} : b ∈ StopSet.whitespace ↔ b ∈ blanks :=
  StopSet.mem_ofList fun _ => blank_isAscii

theorem mem_lineFeed {b : UInt8} : b ∈ StopSet.ofList [lineFeed] ↔ b = lineFeed := by
  have hascii : ∀ b ∈ [lineFeed], isAscii b = true := by
    intro b hb
    rw [List.mem_singleton.mp hb]
    rfl
  rw [StopSet.mem_ofList hascii, List.mem_singleton]

theorem Gap.blanks_append {comments : Bool} {bs gap rest : List UInt8} (hbs : ∀ b ∈ bs, b ∈ blanks)
    (h : Gap comments gap rest) : Gap comments (bs ++ gap) rest := by
  induction bs with
  | nil => exact h
  | cons b bs ih =>
    exact .blank (hbs b List.mem_cons_self) (ih fun a ha => hbs a (List.mem_cons_of_mem _ ha))

theorem NoGap.of_append {comments : Bool} {as bs : List UInt8} (h : NoGap comments (as ++ bs)) :
    NoGap comments as := by
  constructor
  · intro b hb
    refine h.not_blank b ?_
    rw [List.head?_append, Option.mem_def.mp hb]
    rfl
  · intro hcomments hpre
    exact h.not_comment hcomments (hpre.trans (List.prefix_append as bs))

/-- Whitespace behind bytes does not make them the start of a gap. -/
theorem NoGap.append_blank {comments : Bool} {bs tail : List UInt8} (h : NoGap comments bs)
    (hne : bs ≠ []) (htail : ∀ b ∈ tail.head?, b ∈ blanks) : NoGap comments (bs ++ tail) := by
  obtain ⟨b, bs, rfl⟩ := List.exists_cons_of_ne_nil hne
  refine ⟨h.not_blank, ?_⟩
  intro hcomments hslashes
  cases bs with
  | nil =>
    -- A single slash is not made a comment by what is no slash.
    obtain ⟨rest, hrest⟩ := hslashes
    have htail' : tail = slash :: rest := (List.cons.inj hrest).2.symm
    exact absurd (htail slash (by rw [htail']; rfl)) (by decide)
  | cons a bs => exact h.not_comment hcomments (by simpa using hslashes)

theorem Gap.onBoundary {comments : Bool} {gap rest : List UInt8} (h : Gap comments gap rest)
    {c : Cursor} (hc : c.OnBoundary) (hrest : c.rest = gap ++ rest) : (c.pass gap).OnBoundary := by
  induction h generalizing c with
  | nil => exact hc
  | @blank b gap rest hblank _ ih =>
    have hone := (Cursor.onBoundary_of_rest_cons (blank_isAscii hblank) hrest).2
    have htail : (c.pass [b]).rest = gap ++ rest := Cursor.rest_pass hrest
    have hend := ih hone htail
    rw [← Cursor.pass_append] at hend
    exact hend
  | @comment body gap rest _ _ hfeed _ ih =>
    have hline : c.rest = (slash :: slash :: body) ++ (gap ++ rest) := by
      rw [hrest]
      simp
    have hbound : (c.pass (slash :: slash :: body)).OnBoundary :=
      hc.pass_stop (fun b hb => by rw [hfeed b hb]; rfl) hline
    have hend := ih hbound (Cursor.rest_pass hline)
    rw [← Cursor.pass_append] at hend
    exact hend

theorem skipWhitespace_eq (c : Cursor) : ∃ run tail, c.rest = run ++ tail ∧
    c.skipWhitespace = c.pass run ∧ (∀ b ∈ run, b ∈ blanks) ∧ ∀ b ∈ tail.head?, b ∉ blanks := by
  obtain ⟨run, tail, hrest, hrun⟩ :=
    Stretch.exists_eq_append StopSet.whitespace.contains c.rest
  refine ⟨run, tail, hrest, ?_, ?_, ?_⟩
  · rw [Cursor.skipWhitespace, Cursor.discardWhile_eq, hrest, hrun.takeWhile_eq]
  · intro b hb
    exact mem_whitespace.mp (StopSet.mem_iff.mpr (hrun.all b hb))
  · intro b hb hblank
    have hstop := hrun.stop b hb
    rw [StopSet.mem_iff.mp (mem_whitespace.mpr hblank)] at hstop
    contradiction

theorem skipLine_eq (c : Cursor) : ∃ run tail, c.rest = run ++ tail ∧
    skipLine c = c.pass run ∧ lineFeed ∉ run ∧ ∀ b ∈ tail.head?, b = lineFeed := by
  obtain ⟨run, tail, hrest, hrun⟩ :=
    Stretch.exists_eq_append (fun b => !(StopSet.ofList [lineFeed]).contains b) c.rest
  refine ⟨run, tail, hrest, ?_, ?_, ?_⟩
  · rw [skipLine, Cursor.discardUntil, Cursor.discardWhile_eq, hrest, hrun.takeWhile_eq]
  · exact fun hmem => hrun.not_mem_stops lineFeed hmem (mem_lineFeed.mpr rfl)
  · exact fun b hb => mem_lineFeed.mp (terminated_iff.mp hrun.terminated b hb)

/-- A byte that is a slash is the character. -/
theorem encode_eq_slash_cons {cs : List Char} {bs : List UInt8} :
    encode cs = slash :: bs ↔ ∃ back, cs = '/' :: back ∧ encode back = bs :=
  encode_eq_char_cons rfl rfl

/-- Between characters, a comment starts where two slashes do. -/
theorem atComment_eq {c : Cursor} (hc : c.OnBoundary) :
    atComment c = .ok (decide ([slash, slash] <+: c.rest)) := by
  obtain ⟨back, hback, hbytes⟩ := hc.suffix
  have hrest : c.rest = encode back := hbytes.symm
  have hiff : [slash, slash] <+: c.rest ↔ ∃ tail, back = '/' :: '/' :: tail := by
    rw [hrest]
    constructor
    · rintro ⟨bs, hbs⟩
      obtain ⟨tail, rfl, htail⟩ := encode_eq_slash_cons.mp hbs.symm
      obtain ⟨tail, rfl, -⟩ := encode_eq_slash_cons.mp htail
      exact ⟨tail, rfl⟩
    · rintro ⟨tail, rfl⟩
      exact ⟨encode tail, rfl⟩
  unfold atComment
  rw [hback]
  split
  · next tail heq =>
    rw [decide_eq_true (hiff.mpr ⟨tail, Option.some.inj heq⟩)]
  · next hne heq =>
    rw [decide_eq_false]
    intro hpre
    obtain ⟨tail, rfl⟩ := hiff.mp hpre
    exact hne tail (Option.some.inj heq).symm
  · contradiction

/-- A line that starts with two slashes is a comment as a whole. -/
theorem eq_comment_of_prefix {line tail : List UInt8} (h : [slash, slash] <+: line ++ tail)
    (htail : ∀ b ∈ tail.head?, b = lineFeed) : ∃ body, line = slash :: slash :: body := by
  obtain ⟨bs, hbs⟩ := h
  have hslash : slash ≠ lineFeed := by decide
  cases line with
  | nil =>
    rw [List.nil_append] at hbs
    exact absurd (htail slash (by rw [← hbs]; rfl)) hslash
  | cons a line =>
    obtain ⟨rfl, hline⟩ := List.cons.inj hbs
    cases line with
    | nil =>
      have hhead : slash ∈ tail.head? := by
        rw [show tail = slash :: bs from hline.symm]
        rfl
      exact absurd (htail slash hhead) hslash
    | cons b line =>
      obtain ⟨rfl, -⟩ := List.cons.inj hline
      exact ⟨line, rfl⟩

/-- A comment at the cursor is skipped up to the end of its line. -/
theorem skipComment_eq {c : Cursor} (hc : c.OnBoundary) (hslashes : [slash, slash] <+: c.rest) :
    ∃ body tail, c.rest = (slash :: slash :: body) ++ tail ∧
      skipLine c = c.pass (slash :: slash :: body) ∧
      (c.pass (slash :: slash :: body)).OnBoundary ∧ lineFeed ∉ body ∧
      ∀ b ∈ tail.head?, b = lineFeed := by
  obtain ⟨line, tail, hrest, hline, hnone, hfeed⟩ := skipLine_eq c
  obtain ⟨body, rfl⟩ := eq_comment_of_prefix (hrest ▸ hslashes) hfeed
  refine ⟨body, tail, hrest, hline, ?_, ?_, hfeed⟩
  · exact hc.pass_stop (fun b hb => by rw [hfeed b hb]; rfl) hrest
  · intro hmem
    exact hnone (List.mem_cons_of_mem _ (List.mem_cons_of_mem _ hmem))

/-- Fuel beyond the bytes that are left is never used up, as each round but the
last one consumes a comment. -/
theorem skipGapWithin_eq (features : Features) {n : Nat} {c : Cursor} (hc : c.OnBoundary)
    (hn : c.rest.length < n) : ∃ gap tail, c.rest = gap ++ tail ∧
      skipGapWithin features n c = .ok (c.pass gap) ∧
      Gap features.lineComments gap tail ∧ NoGap features.lineComments tail := by
  induction n generalizing c with
  | zero => omega
  | succ n ih =>
    obtain ⟨run, tail, hrest, hskip, hrun, htail⟩ := skipWhitespace_eq c
    have hbound : (c.pass run).OnBoundary :=
      hc.pass_ascii (fun b hb => blank_isAscii (hrun b hb)) hrest
    have htailRest : (c.pass run).rest = tail := Cursor.rest_pass hrest
    have hblank : ∀ comments, Gap comments run tail := by
      intro comments
      rw [← List.append_nil run]
      exact Gap.blanks_append hrun .nil
    unfold skipGapWithin
    rw [hskip]
    cases hcomments : features.lineComments with
    | false => exact ⟨run, tail, hrest, rfl, hblank _, htail, fun h => by contradiction⟩
    | true =>
      rw [if_pos rfl, atComment_eq hbound, htailRest]
      by_cases hslashes : [slash, slash] <+: tail
      · rw [← htailRest] at hslashes
        obtain ⟨body, tail', heq, hline, hend, hbody, hfeed⟩ := skipComment_eq hbound hslashes
        have hrest' := Cursor.rest_pass heq
        have hlen : tail'.length < n := by
          rw [hrest, ← htailRest, heq] at hn
          simp only [List.length_append, List.length_cons] at hn
          omega
        obtain ⟨gap, tail'', hgapRest, hskipped, hgap, hnone⟩ :=
          ih hend (by rw [hrest']; exact hlen)
        rw [hrest'] at hgapRest
        subst hgapRest
        rw [hcomments] at hgap hnone
        refine ⟨run ++ (slash :: slash :: (body ++ gap)), tail'', ?_, ?_, ?_, hnone⟩
        · rw [hrest, ← htailRest, heq]
          simp
        · simp only [htailRest ▸ hslashes, decide_true]
          rw [hline, hskipped, ← Cursor.pass_append, ← Cursor.pass_append]
          simp
        · exact Gap.blanks_append hrun (.comment rfl hbody hfeed hgap)
      · refine ⟨run, tail, hrest, ?_, hblank _, htail, fun _ => hslashes⟩
        simp only [hslashes, decide_false]

theorem skipGap_eq (features : Features) {c : Cursor} (hc : c.OnBoundary) :
    ∃ gap tail, c.rest = gap ++ tail ∧ skipGap features c = .ok (c.pass gap) ∧
      (c.pass gap).OnBoundary ∧ Gap features.lineComments gap tail ∧
      NoGap features.lineComments tail := by
  obtain ⟨gap, tail, hrest, hskip, hgap, hnone⟩ :=
    skipGapWithin_eq features hc (Nat.lt_succ_self c.rest.length)
  exact ⟨gap, tail, hrest, hskip, hgap.onBoundary hc hrest, hgap, hnone⟩

end Lexing.Brace
