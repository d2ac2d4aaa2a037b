import Lexing.Command.Lex
import Lexing.Proofs.Brace.Derivation
import Lexing.Proofs.Reading

/-! The items that a listing is made of: all items of the source up to its end, or
none where an error ends the run. -/

namespace Lexing.Command

open Tokenizer (Reads isEnd)

variable {items : List (Item Brace.Kinds)}

def firstError? (items : List (Item Brace.Kinds)) : Option LexError :=
  items.findSome? fun
    | .ok _ => none
    | .error e => some e

/-- The items that are listed: all of them, unless the first error ends the run. -/
def listed (keepGoing : Bool) (items : List (Item Brace.Kinds)) :
    Except LexError (List (Item Brace.Kinds)) :=
  if keepGoing then .ok items
  else match firstError? items with
    | some e => .error e
    | none => .ok items

@[simp] theorem listed_true (items : List (Item Brace.Kinds)) : listed true items = .ok items := rfl

theorem listed_cons_ok (keepGoing : Bool) (token : Token Brace.Kinds)
    (items : List (Item Brace.Kinds)) :
    listed keepGoing (.ok token :: items) = (listed keepGoing items).map (.ok token :: ·) := by
  have hfirst : firstError? (.ok token :: items) = firstError? items := rfl
  cases keepGoing with
  | true => rfl
  | false =>
    rw [listed, listed, hfirst]
    cases firstError? items with
    | none => rfl
    | some e => rfl

theorem firstError?_eq_some_iff {e : LexError} : firstError? items = some e ↔
    ∃ front back, items = front ++ .error e :: back ∧ ∀ item ∈ front, item.isOk = true := by
  rw [firstError?, List.findSome?_eq_some_iff]
  constructor
  · rintro ⟨front, item, back, rfl, hitem, hfront⟩
    cases item with
    | ok token => contradiction
    | error e' =>
      cases hitem
      refine ⟨front, back, rfl, ?_⟩
      intro item hmem
      have hnone := hfront item hmem
      cases item with
      | ok token => rfl
      | error e => contradiction
  · rintro ⟨front, back, rfl, hfront⟩
    refine ⟨front, .error e, back, rfl, rfl, ?_⟩
    intro item hmem
    have hok := hfront item hmem
    cases item with
    | ok token => rfl
    | error e => contradiction

/-- The errors that a summary counts are those that end a run. -/
theorem errors_eq_zero_iff : (Summary.ofItems items).errors = 0 ↔ firstError? items = none := by
  have herrors : (Summary.ofItems items).errors = items.countP (!·.isOk) := rfl
  rw [herrors, List.countP_eq_zero, firstError?, List.findSome?_eq_none_iff]
  constructor
  · intro hok item hmem
    have hitem := hok item hmem
    cases item with
    | ok token => rfl
    | error e => exact absurd rfl hitem
  · intro hnone item hmem
    have hitem := hnone item hmem
    cases item with
    | ok token => simp [Except.isOk, Except.toBool]
    | error e => contradiction

/-- With fuel for all items, the command takes them all or stops at the first error. -/
theorem scanWithin_of_reads (keepGoing : Bool) {t u : BraceTokenizer} {last : Item Brace.Kinds}
    (h : Reads isEnd t items last u) {n : Nat} (hn : items.length < n) :
    scanWithin keepGoing n t = .ok (listed keepGoing (items ++ [last])) := by
  induction h generalizing n with
  | stop hnext hlast =>
    obtain ⟨n, rfl⟩ : ∃ k, n = k + 1 := ⟨n - 1, by omega⟩
    obtain ⟨token, rfl, hsentinel⟩ := Tokenizer.isEnd_eq_true.mp hlast
    rw [scanWithin, hnext, List.nil_append, listed_cons_ok]
    cases keepGoing with
    | true => simp [hsentinel, Except.map]
    | false =>
      simp only [hsentinel, if_true]
      rfl
  | @more t item t' items last u hnext hitem _ ih =>
    obtain ⟨n, rfl⟩ : ∃ k, n = k + 1 := ⟨n - 1, by omega⟩
    have hrest := ih (by simpa using hn)
    rw [scanWithin, hnext]
    cases item with
    | ok token =>
      have hmore : token.isSentinel = false := hitem
      rw [List.cons_append, listed_cons_ok]
      simp [hmore, hrest, Except.map]
    | error e =>
      cases keepGoing with
      | true => simp [hrest, Except.map]
      | false => rfl

theorem scan_of_scanWithin {options : Options} {source : Source}
    {answer : Except LexError (List (Item Brace.Kinds))}
    (h : scanWithin options.keepGoing
      (Tokenizer.ofSource source options.features : BraceTokenizer).bound
        (.ofSource source options.features) = .ok answer) :
    scan options source = answer.mapError (.lexical options.path) := by
  simp only [scan, h]
  cases answer with
  | ok items => rfl
  | error e => rfl

/-- The command lists the items of the run over its source and never fails but for a
lexical error. -/
theorem exists_scan (source : Source) (features : Brace.Features) : ∃ items last u,
    Tokenizer.Run (.ofSource source features : BraceTokenizer) items last u ∧
      ∀ options : Options, options.features = features → scan options source =
        (listed options.keepGoing (items ++ [.ok last])).mapError (.lexical options.path) := by
  obtain ⟨items, hlexed, hrun⟩ := Brace.exists_run features (Cursor.ofSource_onBoundary source)
  refine ⟨items, _, _, hrun, ?_⟩
  rintro options rfl
  refine scan_of_scanWithin (scanWithin_of_reads options.keepGoing hrun.reads ?_)
  exact Nat.lt_add_right 1 (Nat.lt_succ_of_le hlexed.length_le)

end Lexing.Command
