import Lexing.Proofs.Brace.Termination

/-! Stopping at the first error and going on behind it. Both ways of running the
command list the same where nothing is wrong; where something is, the one lists all
there is and the other names the first error and lists nothing. -/

namespace Lexing.Command

def Options.keeping (keepGoing : Bool) (options : Options) : Options := { options with keepGoing }

/-- What the two ways of running the command come to, where these are the items. -/
structure Agree (options : Options) (source : Source) (items : List (Item Brace.Kinds)) :
    Prop where
  keeping_ok : (lexSource (options.keeping true) source .unlimited).result =
    .ok (.ofItems items)
  stopping_iff : (∃ summary, (lexSource (options.keeping false) source .unlimited).result =
    .ok summary) ↔ (Summary.ofItems items).errors = 0
  same : (Summary.ofItems items).errors = 0 → ∀ sink,
    lexSource (options.keeping false) source sink = lexSource (options.keeping true) source sink
  first_error : (Summary.ofItems items).errors ≠ 0 → ∃ front e back,
    items = front ++ .error e :: back ∧ (∀ item ∈ front, item.isOk = true) ∧
      ∀ sink, lexSource (options.keeping false) source sink =
        ⟨.error (.lexical options.path e), []⟩
  file_iff : ∀ sink,
    (∃ summary, (lexFile (options.keeping true) (.ok source) sink).result = .ok summary) ↔
      ∃ summary, (lexFile (options.keeping false) (.ok source) sink).result = .ok summary

section Listing

variable {options : Options} {source : Source} {items : List (Item Brace.Kinds)}

/-- Items of a source that are all listed. -/
theorem lexSource_of_scan_ok (h : scan options source = .ok items) (sink : Sink) :
    lexSource options source sink =
      if (sink.deliver (listing options items)).complete then
        ⟨.ok (.ofItems items), (sink.deliver (listing options items)).written⟩
      else ⟨.error (.output Sink.fullText), (sink.deliver (listing options items)).written⟩ := by
  rw [lexSource, h]

theorem lexSource_of_scan_error {e : CommandError} (h : scan options source = .error e)
    (sink : Sink) : lexSource options source sink = ⟨.error e, []⟩ := by
  rw [lexSource, h]

/-- A file with errors in it never succeeds, even where all of it can be listed. -/
theorem lexFile_ok_iff {sink : Sink} :
    (∃ summary, (lexFile options (.ok source) sink).result = .ok summary) ↔
      ∃ summary, (lexSource options source sink).result = .ok summary ∧ summary.errors = 0 := by
  simp only [lexFile]
  constructor
  · rintro ⟨summary, h⟩
    split at h
    · next summary' hresult =>
      split at h
      · next hzero => exact ⟨summary', hresult, hzero⟩
      · contradiction
    · next e hresult =>
      rw [hresult] at h
      contradiction
  · rintro ⟨summary, hresult, hzero⟩
    simp only [hresult, hzero, if_true]
    exact ⟨summary, rfl⟩

end Listing

/-- Without an error both ways of running the command list all items. -/
theorem Agree.of_none {options : Options} {source : Source} {items : List (Item Brace.Kinds)}
    (hfirst : firstError? items = none)
    (hkeep : scan (options.keeping true) source = .ok items)
    (hstop : scan (options.keeping false) source = .ok items) : Agree options source items := by
  have hzero := errors_eq_zero_iff.mpr hfirst
  have hlisting : listing (options.keeping false) items = listing (options.keeping true) items :=
    rfl
  have hsame : ∀ sink, lexSource (options.keeping false) source sink =
      lexSource (options.keeping true) source sink := by
    intro sink
    rw [lexSource_of_scan_ok hstop, lexSource_of_scan_ok hkeep, hlisting]
  have hunlimited : (lexSource (options.keeping true) source .unlimited).result =
      .ok (.ofItems items) := by
    rw [lexSource_of_scan_ok hkeep, Sink.deliver_unlimited]
    rfl
  constructor
  · exact hunlimited
  · rw [hsame]
    exact iff_of_true ⟨_, hunlimited⟩ hzero
  · exact fun _ => hsame
  · exact fun herrors => absurd hzero herrors
  · intro sink
    rw [lexFile_ok_iff, lexFile_ok_iff, hsame]

/-- An error is listed among the other items, or is all there is. -/
theorem Agree.of_some {options : Options} {source : Source} {items : List (Item Brace.Kinds)}
    {e : LexError} (hfirst : firstError? items = some e)
    (hkeep : scan (options.keeping true) source = .ok items)
    (hstop : scan (options.keeping false) source = .error (.lexical options.path e)) :
    Agree options source items := by
  have herrors : (Summary.ofItems items).errors ≠ 0 := by
    intro hzero
    rw [errors_eq_zero_iff.mp hzero] at hfirst
    contradiction
  have hnothing : ∀ sink, lexSource (options.keeping false) source sink =
      ⟨.error (.lexical options.path e), []⟩ := lexSource_of_scan_error hstop
  constructor
  · rw [lexSource_of_scan_ok hkeep, Sink.deliver_unlimited]
    rfl
  · refine iff_of_false ?_ herrors
    rintro ⟨summary, hsummary⟩
    rw [hnothing] at hsummary
    contradiction
  · exact fun hzero => absurd hzero herrors
  · intro _
    obtain ⟨front, back, heq, hfront⟩ := firstError?_eq_some_iff.mp hfirst
    exact ⟨front, e, back, heq, hfront, hnothing⟩
  · intro sink
    rw [lexFile_ok_iff, lexFile_ok_iff]
    apply iff_of_false
    · rintro ⟨summary, hsummary, hzero⟩
      rw [lexSource_of_scan_ok hkeep] at hsummary
      split at hsummary
      · cases hsummary
        exact herrors hzero
      · contradiction
    · rintro ⟨summary, hsummary, -⟩
      rw [hnothing] at hsummary
      contradiction

/-- Over every source, the run that goes on behind errors succeeds, and the run that
stops at the first one does the same without errors and nothing with them. -/
theorem lexSource_agree (options : Options) (source : Source) : ∃ items last u,
    Tokenizer.Run (.ofSource source options.features : BraceTokenizer) items last u ∧
      Agree options source (items ++ [.ok last]) := by
  obtain ⟨items, last, u, hrun, hscan⟩ := exists_scan source options.features
  refine ⟨items, last, u, hrun, ?_⟩
  have hkeep := hscan (options.keeping true) rfl
  have hstop := hscan (options.keeping false) rfl
  cases hfirst : firstError? (items ++ [.ok last]) with
  | none =>
    refine .of_none hfirst hkeep ?_
    rw [hstop, Options.keeping, listed, hfirst]
    rfl
  | some e =>
    refine .of_some hfirst hkeep ?_
    rw [hstop, Options.keeping, listed, hfirst]
    rfl

end Lexing.Command
