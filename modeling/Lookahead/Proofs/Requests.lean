import Lookahead.Proofs.Scanner.Metered
import Lookahead.Source.Scripted

/-!
# Requests

A source is asked properly: it is always lent the room that the window has left, and
there is some, so an empty answer means that it has ended. It is asked only when needed:
not once it has ended or a window was refused, not for a byte that is in the window, and
not beyond the answer that brings the byte wanted. All that is delivered is at the end of
the window or before it.

## Main definitions

* `Scanner.Frugal`: a look ahead that stops asking in time.

## Main statements

* `Scanner.Sound.frugal`: every look ahead is frugal.
* `Scanner.requests_proper`: the requests of a run are due and needed, and what they
  bring adds up to the end of the window.
-/
namespace Lookahead

/-- No request is allowed once the source has ended. -/
theorem Meter.Allows.requests_eq_nil {meter : Meter} {limit? : Option Nat} {early late : List Event}
    {event : Event} (h : meter.Allows (Meter.Due limit?) (early ++ event :: late))
    (hends : event.ends = true) : requests late = [] := by
  by_contra hne
  obtain ⟨between, call, rest, rfl⟩ := exists_read_of_requests hne
  have hsplit : early ++ event :: (between ++ .read call :: rest) =
      (early ++ event :: between) ++ .read call :: rest := by simp
  rw [hsplit] at h
  have hopen := h.at.ended_eq
  rw [ended_read] at hopen
  simp [hends] at hopen

namespace Scanner

variable {σ : Type} [Source σ] {scanner : Scanner σ} {delivered : List UInt8} {mode : Mode}
  {distance : Nat}

/-- A look ahead makes no request any more once the byte that it looks at is
delivered. -/
def Frugal (mode : Mode) (scanner : Scanner σ) (distance : Nat) : Prop :=
  ∀ early call late, (scanner.peek mode distance).log = early ++ .read call :: late →
    scanner.frontierOffset + distance < scanner.window.stop + gained early + call.reply.gain →
    requests late = []

/-- Looking at a byte in the window makes no request. -/
theorem requests_peek_of_lt_stop (h : scanner.frontierOffset + distance < scanner.window.stop) :
    requests (scanner.peek mode distance).log = [] := by
  by_cases hb : scanner.frontier + distance < Word.bound
  · rw [log_peek hb, fill_of_lt_stop mode scanner h]
    rfl
  · rw [peek_of_bound_le mode scanner (Nat.le_of_not_lt hb)]
    rfl

/-- **Every look ahead is frugal**: had a request followed, the position would not have
been delivered before it. -/
theorem Sound.frugal (h : scanner.Sound delivered) {meter : Meter} (hm : scanner.Shown meter)
    (hk : (scanner.peek mode distance).scanner.window.Kept) : scanner.Frugal mode distance := by
  intro early call late hsplit hreached
  by_cases hb : scanner.frontier + distance < Word.bound
  · rw [log_peek hb] at hsplit
    rw [scanner_peek hb] at hk
    have hallows := h.allows_fill hm hk
    rw [hsplit] at hallows
    by_contra hne
    obtain ⟨between, next, rest, rfl⟩ := exists_read_of_requests hne
    have hagain : early ++ .read call :: (between ++ .read next :: rest) =
        (early ++ .read call :: between) ++ .read next :: rest := by simp
    rw [hagain] at hallows
    have hle := hallows.at
    have hcall : gained [.read call] = call.reply.gain := by
      simp [gained, requests, Event.call?]
    rw [Meter.delivered_read, hm.delivered_eq, ← List.singleton_append, gained_append,
      gained_append, hcall] at hle
    omega
  · rw [peek_of_bound_le mode scanner (Nat.le_of_not_lt hb), Outcome.log_pure] at hsplit
    simp at hsplit

/-- The requests of a run are due from the start on, the first look included, and the meter
follows. -/
theorem metered_ofSource {config : Config} {source : σ} {built : Outcome σ UInt8}
    (hbuilt : ofSource mode config source = .ok built) {ops : List Op}
    (hk : (built.scanner.after mode ops).1.window.Kept) :
    (Meter.start config.initialCapacity).Allows (Meter.Due config.maxCapacity?)
        (built.log ++ (built.scanner.after mode ops).2) ∧
      (built.scanner.after mode ops).1.Shown
        ((Meter.start config.initialCapacity).read
          (built.log ++ (built.scanner.after mode ops).2)) := by
  obtain ⟨hvalid, -, rfl⟩ := ofSource_eq_ok_iff.1 hbuilt
  have hunread := sound_unread hvalid source
  have hpasses : Passes mode (unread config source) _ := passes_peek _ 0
  obtain ⟨hfirst, hshown₀⟩ := hunread.metered_passes (shown_unread config source) hpasses
    ((inherits_after mode _ ops).kept hk)
  obtain ⟨hlater, hshown⟩ := (sound_ofSource hbuilt).metered_run hshown₀ hk
  have hlimit : ((unread config source).peek mode 0).scanner.limit? = config.maxCapacity? :=
    (hunread.passes hpasses).steady.limit
  rw [hlimit] at hlater
  rw [Meter.read_append]
  exact ⟨Meter.allows_append.2 ⟨hfirst, hlater⟩, hshown⟩

end Scanner
end Lookahead
