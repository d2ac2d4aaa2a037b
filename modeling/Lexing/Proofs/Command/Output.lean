import Lexing.Proofs.Command.Stopping

/-! Listings into sinks that run full. Wherever the room of a sink ends, what it took is the
beginning of the whole listing; a lexical error comes before anything is written. -/

namespace Lexing.Command

/-- What a run into a sink of some room comes to, by the run that writes all there is. -/
inductive Shortened (options : Options) (room : Nat) (full : Written Summary) :
    Written Summary → Prop
  | refused {e} : full.result = .error (.lexical options.path e) → full.written = [] →
      Shortened options room full full
  | whole {summary} : full.result = .ok summary → full.written.length ≤ room →
      Shortened options room full full
  | cut {summary} : full.result = .ok summary → room < full.written.length →
      Shortened options room full ⟨.error (.output Sink.fullText), full.written.take room⟩

section Listing

variable {options : Options} {source : Source} {items : List (Item Brace.Kinds)}

def listingBytes (options : Options) (items : List (Item Brace.Kinds)) : List UInt8 :=
  (listing options items).flatMap fun piece => encode piece.toList

theorem lexSource_unlimited (h : scan options source = .ok items) :
    lexSource options source .unlimited = ⟨.ok (.ofItems items), listingBytes options items⟩ := by
  rw [lexSource_of_scan_ok h, Sink.deliver_unlimited]
  rfl

theorem lexSource_bounded (h : scan options source = .ok items) (room : Nat) :
    lexSource options source ⟨some room⟩ =
      if (listingBytes options items).length ≤ room then
        ⟨.ok (.ofItems items), listingBytes options items⟩
      else ⟨.error (.output Sink.fullText), (listingBytes options items).take room⟩ := by
  have hdeliver : (Sink.mk (some room)).deliver (listing options items) =
      ⟨(listingBytes options items).take room,
        decide ((listingBytes options items).length ≤ room)⟩ := Sink.deliver_bounded room _
  rw [lexSource_of_scan_ok h, hdeliver]
  simp only [decide_eq_true_eq]
  split
  · next hfits => rw [List.take_of_length_le hfits]
  · rfl

end Listing

/-- At every source and every room, a run is cut at the end of the room and nowhere else. -/
theorem lexSource_shortened (options : Options) (source : Source) (room : Nat) :
    Shortened options room (lexSource options source .unlimited)
      (lexSource options source ⟨some room⟩) := by
  obtain ⟨items, last, -, -, hscan⟩ := exists_scan source options.features
  have hlisted := hscan options rfl
  cases hitems : listed options.keepGoing (items ++ [.ok last]) with
  | error e =>
    rw [hitems] at hlisted
    have hnothing := lexSource_of_scan_error hlisted
    rw [hnothing, hnothing]
    exact .refused rfl rfl
  | ok listedItems =>
    rw [hitems] at hlisted
    rw [lexSource_unlimited hlisted, lexSource_bounded hlisted]
    split
    · next hfits => exact .whole rfl hfits
    · next hfull => exact .cut rfl (Nat.not_le.mp hfull)

end Lexing.Command
