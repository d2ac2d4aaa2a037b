import Mathlib.Data.List.Induction
import Lexing.Command.Options

/-! The arguments of the `lex` command. Which of them are accepted, and what they ask for, does
not depend on their order; where they are not accepted, the first wrong one decides. -/

namespace Lexing.Command

def Flag.spellings : Flag → List String
  | .offsets => ["--offsets"]
  | .noComments => ["--no-comments"]
  | .noQuotes => ["--no-quotes"]
  | .keepGoing => ["--keep-going", "-k"]

def IsFlag (arg : String) : Prop := ∃ f : Flag, arg ∈ f.spellings

/-- It starts with a minus, but is neither a flag nor the minus alone. -/
def IsUnknown (arg : String) : Prop :=
  arg.toList.head? = some '-' ∧ ¬ IsFlag arg ∧ arg ≠ "-"

/-- All that is neither a flag nor unknown, also the empty text. -/
def IsPath (arg : String) : Prop := ¬ IsFlag arg ∧ ¬ IsUnknown arg

theorem mem_spellings_iff {f : Flag} {arg : String} :
    arg ∈ f.spellings ↔ Flag.ofString? arg = some f := by
  constructor
  · intro h
    cases f with
    | offsets | noComments | noQuotes =>
      rw [List.mem_singleton.mp h]
      rfl
    | keepGoing =>
      simp only [Flag.spellings, List.mem_cons, List.not_mem_nil, or_false] at h
      rcases h with rfl | rfl
      · rfl
      · rfl
  · fun_cases Flag.ofString? arg with
    | case1 hspelled | case2 _ hspelled | case3 _ _ hspelled =>
      rintro ⟨⟩
      exact List.mem_singleton.mpr hspelled
    | case4 _ _ _ hspelled =>
      rintro ⟨⟩
      simpa [Flag.spellings] using hspelled
    | case5 =>
      rintro ⟨⟩

theorem isFlag_iff {arg : String} : (Flag.ofString? arg).isSome = true ↔ IsFlag arg := by
  simp [IsFlag, mem_spellings_iff, Option.isSome_iff_exists]

instance (arg : String) : Decidable (IsFlag arg) := decidable_of_iff _ isFlag_iff

instance (arg : String) : Decidable (IsUnknown arg) := inferInstanceAs (Decidable (_ ∧ _ ∧ _))

instance (arg : String) : Decidable (IsPath arg) := inferInstanceAs (Decidable (_ ∧ _))

def pathsOf (args : List String) : List String := args.filter fun arg => IsPath arg

def Given (f : Flag) (args : List String) : Prop := ∃ arg ∈ args, arg ∈ f.spellings

/-- No argument is unknown, and exactly one is a path. -/
def Acceptable (args : List String) : Prop :=
  (∀ arg ∈ args, ¬ IsUnknown arg) ∧ ∃ path, pathsOf args = [path]

/-- The options name the only path, and say which flags are among the arguments. -/
structure Reflects (args : List String) (o : Options) : Prop where
  path : pathsOf args = [o.path]
  offsets : o.offsets = true ↔ Given .offsets args
  comments : o.comments = true ↔ ¬ Given .noComments args
  quotes : o.quotes = true ↔ ¬ Given .noQuotes args
  keepGoing : o.keepGoing = true ↔ Given .keepGoing args

/-- Behind the arguments `before`, an argument is wrong if it is unknown or a second path. -/
def Wrong (before : List String) (arg : String) : Prop :=
  IsUnknown arg ∨ IsPath arg ∧ ∃ path ∈ before, IsPath path

/-- No argument is wrong behind those before it. -/
def Faultless (args : List String) : Prop :=
  ∀ before arg behind, args = before ++ arg :: behind → ¬ Wrong before arg

def FirstWrong (args : List String) (arg : String) : Prop :=
  ∃ before behind, args = before ++ arg :: behind ∧ Faultless before ∧ Wrong before arg

/-- The answer that arguments call for. -/
inductive Verdict (args : List String) : Except UsageError Options → Prop
  | accepted {o} : (∀ arg ∈ args, ¬ IsUnknown arg) → Reflects args o → Verdict args (.ok o)
  | unknown {arg} : FirstWrong args arg → IsUnknown arg →
      Verdict args (.error (.unknownOption arg))
  | unexpected {arg} : FirstWrong args arg → IsPath arg →
      Verdict args (.error (.unexpectedArgument arg))
  | missing : Faultless args → ¬ Acceptable args → Verdict args (.error .missingPath)

section Classes

variable {arg : String} {f : Flag}

theorem ofString_of_flag (h : Flag.ofString? arg = some f) :
    Argument.ofString arg = .flag f := by
  rw [Argument.ofString, h]

theorem ofString?_eq_none (h : ¬ IsFlag arg) : Flag.ofString? arg = none := by
  rw [← isFlag_iff, Option.not_isSome_iff_eq_none] at h
  exact h

theorem ofString_of_unknown (h : IsUnknown arg) : Argument.ofString arg = .unknown := by
  obtain ⟨hminus, hflag, hlone⟩ := h
  rw [Argument.ofString, ofString?_eq_none hflag]
  exact if_pos ⟨hminus, hlone⟩

theorem ofString_of_path (h : IsPath arg) : Argument.ofString arg = .path := by
  obtain ⟨hflag, hunknown⟩ := h
  rw [Argument.ofString, ofString?_eq_none hflag]
  exact if_neg fun ⟨hminus, hlone⟩ => hunknown ⟨hminus, hflag, hlone⟩

theorem flag_or_path (h : ¬ IsUnknown arg) : IsFlag arg ∨ IsPath arg := by
  by_cases hflag : IsFlag arg
  · exact .inl hflag
  · exact .inr ⟨hflag, h⟩

theorem pathsOf_cons_of_flag (h : IsFlag arg) (args : List String) :
    pathsOf (arg :: args) = pathsOf args := by
  have hpath : ¬ IsPath arg := fun hpath => hpath.1 h
  simp [pathsOf, hpath]

theorem pathsOf_cons_of_path (h : IsPath arg) (args : List String) :
    pathsOf (arg :: args) = arg :: pathsOf args := by
  simp [pathsOf, h]

theorem pathsOf_append (args args' : List String) :
    pathsOf (args ++ args') = pathsOf args ++ pathsOf args' := List.filter_append _ _

theorem pathsOf_eq_nil_iff {args : List String} :
    pathsOf args = [] ↔ ∀ arg ∈ args, ¬ IsPath arg := by
  simp [pathsOf]

end Classes

section Flags

def Options.has (o : Options) : Flag → Bool
  | .offsets => o.offsets
  | .noComments => !o.comments
  | .noQuotes => !o.quotes
  | .keepGoing => o.keepGoing

def Options.heed (o : Options) (arg : String) : Options :=
  match Flag.ofString? arg with
  | some f => o.set f
  | none => o

theorem has_set (o : Options) (f g : Flag) : (o.set f).has g = (o.has g || decide (f = g)) := by
  cases f <;> cases g <;> simp [Options.set, Options.has]

theorem has_heed {o : Options} {arg : String} {f : Flag} :
    (o.heed arg).has f = true ↔ o.has f = true ∨ arg ∈ f.spellings := by
  rw [mem_spellings_iff, Options.heed]
  split
  · next g hg => simp [has_set, hg]
  · next hnone => simp [hnone]

theorem has_foldl_heed {o : Options} {args : List String} {f : Flag} :
    (args.foldl Options.heed o).has f = true ↔ o.has f = true ∨ Given f args := by
  induction args generalizing o with
  | nil => simp [Given]
  | cons arg args ih =>
    rw [List.foldl_cons, ih, has_heed, or_assoc]
    simp [Given]

/-- What is collected along acceptable arguments reflects them. -/
theorem reflects_foldl_heed {args : List String} {path : String} (h : pathsOf args = [path]) :
    Reflects args { args.foldl Options.heed (.ofPath "") with path } := by
  have hgiven (f : Flag) : (args.foldl Options.heed (.ofPath "")).has f = true ↔ Given f args := by
    rw [has_foldl_heed]
    cases f <;> simp [Options.has, Options.ofPath]
  refine ⟨h, hgiven .offsets, ?_, ?_, hgiven .keepGoing⟩
  · rw [← hgiven .noComments]
    simp [Options.has]
  · rw [← hgiven .noQuotes]
    simp [Options.has]

theorem Reflects.unique {args : List String} {o o' : Options} (h : Reflects args o)
    (h' : Reflects args o') : o = o' := by
  obtain ⟨path, offsets, comments, quotes, keepGoing⟩ := o
  obtain ⟨path', offsets', comments', quotes', keepGoing'⟩ := o'
  obtain rfl : path = path' := List.singleton_inj.mp (h.path.symm.trans h'.path)
  obtain rfl : offsets = offsets' := Bool.eq_iff_iff.mpr (h.offsets.trans h'.offsets.symm)
  obtain rfl : comments = comments' := Bool.eq_iff_iff.mpr (h.comments.trans h'.comments.symm)
  obtain rfl : quotes = quotes' := Bool.eq_iff_iff.mpr (h.quotes.trans h'.quotes.symm)
  obtain rfl : keepGoing = keepGoing' :=
    Bool.eq_iff_iff.mpr (h.keepGoing.trans h'.keepGoing.symm)
  rfl

end Flags

section Order

variable {args args' : List String}

theorem Given.perm {f : Flag} (h : args.Perm args') : Given f args ↔ Given f args' := by
  simp only [Given, h.mem_iff]

theorem Reflects.perm {o : Options} (h : Reflects args o) (hperm : args.Perm args') :
    Reflects args' o := by
  have hpaths : (pathsOf args).Perm (pathsOf args') := hperm.filter _
  rw [h.path] at hpaths
  refine ⟨(List.singleton_perm.mp hpaths).symm, ?_, ?_, ?_, ?_⟩
  · rw [h.offsets, Given.perm hperm]
  · rw [h.comments, Given.perm hperm]
  · rw [h.quotes, Given.perm hperm]
  · rw [h.keepGoing, Given.perm hperm]

end Order

section Faultless

variable {args : List String} {arg : String}

theorem faultless_concat : Faultless (args ++ [arg]) ↔ Faultless args ∧ ¬ Wrong args arg := by
  constructor
  · intro h
    refine ⟨?_, h args arg [] rfl⟩
    rintro before a behind rfl
    exact h before a (behind ++ [arg]) (by simp)
  · rintro ⟨hargs, hlast⟩ before a behind heq
    rcases List.eq_nil_or_concat behind with rfl | ⟨behind, b, rfl⟩
    · obtain ⟨rfl, ha⟩ := List.append_inj' heq rfl
      obtain rfl := List.singleton_inj.mp ha
      exact hlast
    · have heq' : args ++ [arg] = (before ++ a :: behind) ++ [b] := by simpa using heq
      exact hargs before a behind (List.append_inj' heq' rfl).1

/-- Faultless arguments are all known, with no second path among them. -/
theorem faultless_iff : Faultless args ↔
    (∀ arg ∈ args, ¬ IsUnknown arg) ∧ (pathsOf args).length ≤ 1 := by
  induction args using List.reverseRecOn with
  | nil => simp [Faultless, pathsOf]
  | append_singleton args arg ih =>
    have hsecond : (∃ path ∈ args, IsPath path) ↔ pathsOf args ≠ [] := by
      simp [pathsOf_eq_nil_iff]
    rw [faultless_concat, ih, Wrong, hsecond, pathsOf_append]
    by_cases hunknown : IsUnknown arg
    · simp [hunknown, or_imp, forall_and]
    · rcases flag_or_path hunknown with hflag | hpath
      · have hnot : ¬ IsPath arg := fun hpath => hpath.1 hflag
        have hnone : pathsOf [arg] = [] := pathsOf_cons_of_flag hflag []
        simp [hunknown, hnot, hnone, or_imp, forall_and]
      · have hone : pathsOf [arg] = [arg] := pathsOf_cons_of_path hpath []
        simp +contextual [hunknown, hpath, hone, or_imp]

/-- Arguments are faultless, or one of them is the first wrong one. -/
theorem faultless_or_firstWrong (args : List String) :
    Faultless args ∨ ∃ arg, FirstWrong args arg := by
  induction args using List.reverseRecOn with
  | nil => exact .inl fun before arg behind heq => by simp at heq
  | append_singleton args arg ih =>
    rcases ih with hargs | ⟨first, before, behind, rfl, hbefore, hwrong⟩
    · by_cases hwrong : Wrong args arg
      · exact .inr ⟨arg, args, [], rfl, hargs, hwrong⟩
      · exact .inl (faultless_concat.mpr ⟨hargs, hwrong⟩)
    · exact .inr ⟨first, before, behind ++ [arg], by simp, hbefore, hwrong⟩

end Faultless

section Parse

variable {o : Options} {path : Option String} {args front back : List String} {arg : String}

theorem parseFrom_of_flag (h : IsFlag arg) :
    Options.parseFrom o path (arg :: args) = Options.parseFrom (o.heed arg) path args := by
  obtain ⟨f, hf⟩ := h
  have hflag := mem_spellings_iff.mp hf
  simp only [Options.parseFrom, ofString_of_flag hflag, Options.heed, hflag]

theorem parseFrom_of_path (h : IsPath arg) :
    Options.parseFrom o none (arg :: args) = Options.parseFrom (o.heed arg) (some arg) args := by
  simp only [Options.parseFrom, ofString_of_path h, Options.heed, ofString?_eq_none h.1]

theorem parseFrom_of_second {first : String} (h : IsPath arg) :
    Options.parseFrom o (some first) (arg :: args) = .error (.unexpectedArgument arg) := by
  simp only [Options.parseFrom, ofString_of_path h]

theorem parseFrom_of_unknown (h : IsUnknown arg) :
    Options.parseFrom o path (arg :: args) = .error (.unknownOption arg) := by
  simp only [Options.parseFrom, ofString_of_unknown h]

/-- Arguments that are known, with no second path among them, are all gone through. -/
theorem parseFrom_append (hknown : ∀ arg ∈ front, ¬ IsUnknown arg)
    (hpaths : (path.toList ++ pathsOf front).length ≤ 1) :
    Options.parseFrom o path (front ++ back) =
      Options.parseFrom (front.foldl Options.heed o) (path.toList ++ pathsOf front).head? back := by
  induction front generalizing o path with
  | nil => simp [pathsOf]
  | cons arg front ih =>
    have hrest : ∀ arg ∈ front, ¬ IsUnknown arg :=
      fun other hother => hknown other (List.mem_cons_of_mem arg hother)
    rcases flag_or_path (hknown arg List.mem_cons_self) with hflag | hpath
    · rw [pathsOf_cons_of_flag hflag] at hpaths ⊢
      rw [List.cons_append, parseFrom_of_flag hflag, List.foldl_cons]
      exact ih hrest hpaths
    · rw [pathsOf_cons_of_path hpath] at hpaths ⊢
      cases path with
      | some first => simp at hpaths
      | none =>
        rw [List.cons_append, parseFrom_of_path hpath, List.foldl_cons]
        exact ih hrest hpaths

/-- Faultless arguments hand on their flags and their path to what is behind them. -/
theorem parse_append (h : Faultless front) : Options.parse (front ++ back) =
    Options.parseFrom (front.foldl Options.heed (.ofPath "")) (pathsOf front).head? back := by
  obtain ⟨hknown, hpaths⟩ := faultless_iff.mp h
  exact @parseFrom_append (.ofPath "") none front back hknown hpaths

theorem FirstWrong.parse_unknown (h : FirstWrong args arg) (hunknown : IsUnknown arg) :
    Options.parse args = .error (.unknownOption arg) := by
  obtain ⟨before, behind, rfl, hbefore, -⟩ := h
  rw [parse_append hbefore, parseFrom_of_unknown hunknown]

theorem FirstWrong.parse_path (h : FirstWrong args arg) (hpath : IsPath arg) :
    Options.parse args = .error (.unexpectedArgument arg) := by
  obtain ⟨before, behind, rfl, hbefore, hwrong⟩ := h
  rcases hwrong with hunknown | ⟨-, first, hmem, hfirst⟩
  · exact absurd hunknown hpath.2
  · cases hpaths : pathsOf before with
    | nil => exact absurd hfirst (pathsOf_eq_nil_iff.mp hpaths first hmem)
    | cons path paths =>
      rw [parse_append hbefore, hpaths]
      exact parseFrom_of_second hpath

theorem parse_of_faultless (h : Faultless args) : Options.parse args =
    match (pathsOf args).head? with
    | some path => .ok { args.foldl Options.heed (.ofPath "") with path }
    | none => .error .missingPath := by
  have hparse := @parse_append args [] h
  rw [List.append_nil] at hparse
  rw [hparse]
  cases (pathsOf args).head? with
  | some path => rfl
  | none => rfl

end Parse

section Verdict

variable {args : List String} {arg : String}

theorem FirstWrong.unknown_or_path (h : FirstWrong args arg) : IsUnknown arg ∨ IsPath arg := by
  obtain ⟨before, behind, -, -, hwrong⟩ := h
  exact hwrong.imp_right And.left

theorem Faultless.acceptable_or_no_path (h : Faultless args) :
    Acceptable args ∨ pathsOf args = [] := by
  obtain ⟨hknown, hpaths⟩ := faultless_iff.mp h
  cases hpath : pathsOf args with
  | nil => exact .inr rfl
  | cons path paths =>
    obtain rfl : paths = [] := by simpa [hpath] using hpaths
    exact .inl ⟨hknown, path, hpath⟩

theorem exists_verdict (args : List String) : ∃ answer, Verdict args answer := by
  rcases faultless_or_firstWrong args with hargs | ⟨arg, hfirst⟩
  · rcases hargs.acceptable_or_no_path with ⟨hknown, path, hpath⟩ | hnone
    · exact ⟨_, .accepted hknown (reflects_foldl_heed hpath)⟩
    · refine ⟨_, .missing hargs ?_⟩
      rintro ⟨-, path, hone⟩
      rw [hnone] at hone
      contradiction
  · rcases hfirst.unknown_or_path with hunknown | hpath
    · exact ⟨_, .unknown hfirst hunknown⟩
    · exact ⟨_, .unexpected hfirst hpath⟩

theorem Verdict.parse_eq {answer : Except UsageError Options} (h : Verdict args answer) :
    Options.parse args = answer := by
  cases h with
  | @accepted o hknown hreflects =>
    have hargs : Faultless args := faultless_iff.mpr ⟨hknown, by simp [hreflects.path]⟩
    have hfound := reflects_foldl_heed hreflects.path
    rw [parse_of_faultless hargs, hreflects.path]
    exact congrArg Except.ok (hfound.unique hreflects)
  | unknown hfirst hunknown => exact hfirst.parse_unknown hunknown
  | unexpected hfirst hpath => exact hfirst.parse_path hpath
  | missing hargs hnot =>
    have hnone := hargs.acceptable_or_no_path.resolve_left hnot
    rw [parse_of_faultless hargs, hnone, List.head?_nil]

end Verdict

/-- Every list of arguments gets the answer that it calls for. Those that are accepted get
the same one in any order. -/
theorem parse_exact (args : List String) :
    (∀ answer, Options.parse args = answer ↔ Verdict args answer) ∧
      ((∃ o, Options.parse args = .ok o) ↔ Acceptable args) ∧
        ∀ o args', Options.parse args = .ok o → args.Perm args' →
          Options.parse args' = .ok o := by
  have hiff : ∀ answer, Options.parse args = answer ↔ Verdict args answer := by
    intro answer
    obtain ⟨answer', hverdict⟩ := exists_verdict args
    constructor
    · rintro rfl
      rwa [hverdict.parse_eq]
    · exact Verdict.parse_eq
  refine ⟨hiff, ?_, ?_⟩
  · constructor
    · rintro ⟨o, hparse⟩
      cases (hiff _).mp hparse with
      | accepted hknown hreflects => exact ⟨hknown, o.path, hreflects.path⟩
    · rintro ⟨hknown, path, hpath⟩
      exact ⟨_, (hiff _).mpr (.accepted hknown (reflects_foldl_heed hpath))⟩
  · intro o args' hparse hperm
    cases (hiff _).mp hparse with
    | accepted hknown hreflects =>
      have hknown' : ∀ arg ∈ args', ¬ IsUnknown arg :=
        fun arg harg => hknown arg (hperm.mem_iff.mpr harg)
      exact (Verdict.accepted hknown' (hreflects.perm hperm)).parse_eq

/-- A flag in two spellings, and the minus as the path. -/
theorem parse_exact_reordered :
    Options.parse ["-k", "-", "--no-quotes", "--keep-going"] =
        .ok ⟨"-", false, true, false, true⟩ ∧
      ["-k", "-", "--no-quotes", "--keep-going"].Perm
        ["--keep-going", "--no-quotes", "-k", "-"] ∧
      Options.parse ["--keep-going", "--no-quotes", "-k", "-"] =
        .ok ⟨"-", false, true, false, true⟩ := by
  have hperm : ["-k", "-", "--no-quotes", "--keep-going"].Perm
      ["--keep-going", "--no-quotes", "-k", "-"] := by decide
  exact ⟨rfl, hperm, (parse_exact _).2.2 _ _ rfl hperm⟩

/-- The second path is met before the unknown option. -/
example : Options.parse ["-", "-k", "", "--verbose"] = .error (.unexpectedArgument "") := rfl

end Lexing.Command
