import Lookahead.Proofs.Scanner.Place
import Lookahead.Proofs.Scanner.Sight
import Lookahead.Proofs.Scanner.Storage
import Lookahead.Proofs.Source.Honest

/-!
# Scanners that follow their data

A scanner over an honest source follows its data as long as its window is kept: what has
been delivered is their front, what the source still has is the rest, and it is exhausted
only when all of them were delivered. A limit may end the source before that, and does so only for a
token that fills a window of the size of the limit and a position behind it. What a
scanner answers that is not refused is determined by the data and its place in them.

## Main definitions

* `Scanner.Follows`: a scanner whose source delivers the rest of the data.
* `Scanner.InReach`: a distance at which looking ahead is not refused.
* `Place.byteAt` and `Place.sights`: what there is to see at a place of the data.

## Main statements

* `Scanner.Follows.refill`: a pass is a read, or a refusal.
* `Scanner.Follows.peek_inReach` and `Scanner.Follows.peekRune_inReach`: what looking
  ahead answers.
-/
namespace Lookahead

namespace Place

/-- The byte a given distance past the frontier, zero behind the data. -/
def byteAt (place : Place) (data : List UInt8) (distance : Nat) : UInt8 :=
  data.getD (place.frontier + distance) 0

/-- The distances at which an operation looks, one after the other. -/
def sights (place : Place) (data : List UInt8) : Op → List Nat
  | .peek distance => [distance]
  | .peekRune distance =>
    distance :: Scanner.followers (place.byteAt data distance) distance
  | _ => []

end Place

/-- A source that has ended without a failure is exhausted. -/
theorem Status.eq_exhausted {status : Status} (hf : status.failure? = none)
    (hi : status.isActive = false) : status = .exhausted := by
  cases status with
  | active => simp at hi
  | exhausted => rfl
  | failed failure => simp [Status.failure?] at hf

namespace Scanner

variable {σ : Type} {scanner : Scanner σ} {data delivered : List UInt8} {mode : Mode}
  {target limit : Nat}

/-! ## Refusals -/

/-- A refusal names the limit of the scanner. -/
theorem limit_of_nextSize (hn : scanner.nextSize scanner.residual = .error limit) :
    scanner.limit? = some limit := by
  rw [nextSize] at hn
  cases hl : scanner.limit? with
  | none => simp [hl] at hn
  | some bound =>
    simp only [hl] at hn
    split at hn
    · rw [Except.error.inj hn]
    · cases hn

/-- A window is refused only if the token begins with it and fills it to the limit. -/
theorem Sound.refused (h : scanner.Sound delivered) (hk : scanner.window.Kept)
    (ha : scanner.status.isActive = true)
    (hn : scanner.nextSize scanner.residual = .error limit) :
    scanner.start = 0 ∧ scanner.window.filled = limit := by
  have hroom := h.room hk ha
  obtain ⟨hs, hr⟩ := nextSize_eq_error hn hk hroom h.within
  rw [residual, retained] at hr
  have hle := hk.filled_le
  omega

/-- No byte is buffered that lies further behind the token start than the limit. -/
theorem Sound.stop_le (h : scanner.Sound delivered) (hk : scanner.window.Kept)
    (hl : scanner.limit? = some limit) :
    scanner.window.stop ≤ scanner.shiftedTotal + limit := by
  have hw := h.within limit hl
  have hle := hk.filled_le
  rw [Window.stop, shiftedTotal]
  omega

variable [Source σ]

/-- What holds of a scanner of the given data of which a part has been delivered: it has
its window, its source delivers the rest, and is exhausted only when there is none. -/
structure Follows (scanner : Scanner σ) (data delivered : List UInt8) : Prop
    extends scanner.Sound delivered where
  kept : scanner.window.Kept
  front : delivered <+: data
  honest : Source.Delivers scanner.source (data.drop delivered.length)
  ended : scanner.status = .exhausted → delivered = data

theorem follows_unread {config : Config} {source : σ} (hvalid : config.Valid)
    (hhonest : Source.Delivers source data) : (unread config source).Follows data [] :=
  { sound_unread hvalid source with
    kept := Window.kept_vacant config.initialCapacity
    front := List.nil_prefix
    honest := hhonest
    ended := nofun }

/-! ## Passes -/

/-- A read into a window with room delivers the next bytes of the data, or ends the
source when there are none. -/
theorem Follows.draw (h : scanner.Follows data delivered) (ha : scanner.status = .active)
    (hroom : scanner.window.spare ≠ []) :
    scanner.draw.scanner.Follows data (delivered ++ deliveredBytes scanner.draw.log) ∧
      scanner.draw.scanner.status.failure? = none := by
  have hsound := h.reading_draw.sound
  obtain ⟨n, hc, hn, hz, ht, hkept⟩ := h.honest.pull hroom
  obtain ⟨hs, hlog⟩ := draw_of_ok hc
  obtain ⟨rest, rfl⟩ := h.front
  rw [List.drop_left] at hn hz ht hkept
  rw [hlog, ht] at hsound ⊢
  have hlen : (delivered ++ rest.take n).length = delivered.length + n := by
    rw [List.length_append, List.length_take_of_le hn]
  have hfront : delivered ++ rest.take n <+: delivered ++ rest :=
    (List.prefix_append_right_inj delivered).2 (List.take_prefix n rest)
  have hstatus : scanner.draw.scanner.status = if n = 0 then .exhausted else .active := by
    rw [hs, ha]
    rfl
  refine ⟨{ hsound with
    kept := (kept_draw scanner).2 h.kept
    front := hfront
    honest := ?_
    ended := fun he => ?_ }, ?_⟩
  · rw [hlen, ← List.drop_drop, List.drop_left, hs]
    exact hkept
  · rw [hstatus] at he
    by_cases hzero : n = 0
    · rw [hz hzero, List.take_nil]
    · rw [if_neg hzero] at he
      cases he
  · rw [hstatus]
    split <;> rfl

/-- Moving the window on leaves the source alone, and ends it only by a refusal. -/
theorem Follows.relocate (h : scanner.Follows data delivered) (ha : scanner.status = .active)
    (hk : (scanner.relocate mode target).scanner.window.Kept) :
    (scanner.relocate mode target).scanner.Follows data delivered ∧
      ((scanner.relocate mode target).scanner.status = .active ∨
        ∃ limit, scanner.nextSize scanner.residual = .error limit ∧
          scanner.relocate mode target = scanner.refuse target limit) := by
  have hsound :=
    (h.reading_relocate h.kept.filled_le (Status.isActive_iff.2 ha) mode target).sound
  rw [deliveredBytes_relocate, List.append_nil] at hsound
  rcases relocate_cases_of_kept hk with ⟨limit, hn, hr⟩ | ⟨size, buffer, -, -, hr⟩
  · refine ⟨{ hsound with
      kept := hk
      front := h.front
      honest := hr ▸ h.honest
      ended := fun he => ?_ }, .inr ⟨limit, hn, hr⟩⟩
    rw [hr, refuse, ha] at he
    cases he
  · refine ⟨{ hsound with
      kept := hk
      front := h.front
      honest := hr ▸ h.honest
      ended := hr ▸ h.ended }, .inl ?_⟩
    rw [hr]
    exact ha

/-- A pass follows the data. Unless it is a refusal, it is no failure. -/
theorem Follows.refill (h : scanner.Follows data delivered) (ha : scanner.status = .active)
    (hk : (scanner.refill mode target).scanner.window.Kept) :
    (scanner.refill mode target).scanner.Follows data
        (delivered ++ deliveredBytes (scanner.refill mode target).log) ∧
      ((scanner.refill mode target).scanner.status.failure? = none ∨
        ∃ limit, scanner.nextSize scanner.residual = .error limit ∧
          scanner.refill mode target = scanner.refuse target limit) := by
  rw [refill_of_kept h.kept] at hk ⊢
  by_cases hfull : scanner.window.spare = []
  · rw [if_pos hfull] at hk ⊢
    have hkm := kept_bind_relocate hk
    obtain ⟨hmoved, hstatus⟩ := h.relocate ha hkm
    rw [Outcome.bind_of_ok (result_relocate_of_kept hkm), Outcome.log_after,
      Outcome.scanner_after, deliveredBytes_append, deliveredBytes_relocate, List.nil_append]
    rcases hstatus with hactive | ⟨limit, hn, hrefused⟩
    · have hroom := h.spare_of_relocate (Status.isActive_iff.2 ha) hkm
        (Status.isActive_iff.2 hactive)
      rw [if_pos (Status.isActive_iff.2 hactive)]
      exact ⟨(hmoved.draw hactive hroom).1, .inl (hmoved.draw hactive hroom).2⟩
    · have hi : (scanner.relocate mode target).scanner.status.isActive = false := by
        rw [hrefused]
        exact Status.isActive_finish ..
      rw [if_neg (by simp [hi])]
      refine ⟨by simpa using hmoved, .inr ⟨limit, hn, ?_⟩⟩
      rw [hrefused]
      rfl
  · rw [if_neg hfull]
    exact ⟨(h.draw ha hfull).1, .inl (h.draw ha hfull).2⟩

/-- Looking ahead follows the data, whatever is refused. -/
theorem Follows.passes (h : scanner.Follows data delivered) {outcome : Outcome σ Unit}
    (hp : Passes mode scanner outcome) (hk : outcome.scanner.window.Kept) :
    outcome.scanner.Follows data (delivered ++ deliveredBytes outcome.log) := by
  induction hp with
  | none => simpa using h
  | stuck _ hlost => exact absurd hk hlost
  | more _ _ ha _ ih =>
    rw [Outcome.log_after, deliveredBytes_append, ← List.append_assoc]
    have hbefore := ih ((inherits_refill mode _ _).kept hk)
    exact (hbefore.refill (Status.isActive_iff.1 ha) hk).1

theorem Follows.apply (h : scanner.Follows data delivered) {op : Op}
    (hk : (scanner.apply mode op).scanner.window.Kept) :
    (scanner.apply mode op).scanner.Follows data
      (delivered ++ deliveredBytes (scanner.apply mode op).log) := by
  rcases passes_or_quiet mode scanner op with hp | hq
  · exact h.passes hp hk
  · have hsound := h.toSound.apply mode op
    rw [hq.deliveredBytes_eq, List.append_nil] at hsound ⊢
    exact { hsound with
      kept := hk
      front := h.front
      honest := hq.source ▸ h.honest
      ended := hq.status ▸ h.ended }

theorem Follows.run (h : scanner.Follows data delivered) {ops : List Op}
    (hk : (scanner.after mode ops).1.window.Kept) :
    (scanner.after mode ops).1.Follows data
      (delivered ++ deliveredBytes (scanner.after mode ops).2) := by
  induction ops using List.reverseRecOn with
  | nil => simpa [after] using h
  | append_singleton ops op ih =>
    have hbefore := ih (kept_of_after hk)
    rw [after_concat] at hk ⊢
    rw [deliveredBytes_append, ← List.append_assoc]
    exact hbefore.apply hk

/-! ## Looking ahead -/

/-- Looking at a distance is not refused: the byte is among those of the token that the
limit allows for. Past the last word there are no data to be looked at. -/
structure InReach (scanner : Scanner σ) (data : List UInt8) (distance : Nat) : Prop where
  within : ∀ limit ∈ scanner.limit?, scanner.pos + distance < limit
  past : Word.bound ≤ scanner.frontierOffset + distance →
    data.length ≤ scanner.frontierOffset + distance

omit [Source σ] in
theorem InReach.of_steady {before after : Scanner σ} {distance : Nat}
    (h : before.InReach data distance) (hs : Steady before after) :
    after.InReach data distance where
  within := by
    rw [hs.limit, hs.pos_eq]
    exact h.within
  past := by
    rw [hs.frontier]
    exact h.past

/-- A position within the limit is not refused. -/
theorem Follows.failure_refill (h : scanner.Follows data delivered) (ha : scanner.status = .active)
    (hk : (scanner.refill mode target).scanner.window.Kept)
    (hstop : scanner.window.stop ≤ target)
    (hin : ∀ limit ∈ scanner.limit?, target < scanner.shiftedTotal + limit) :
    (scanner.refill mode target).scanner.status.failure? = none := by
  rcases (h.refill ha hk).2 with hf | ⟨limit, hn, -⟩
  · exact hf
  · obtain ⟨hstart, hfilled⟩ := h.refused h.kept (Status.isActive_iff.2 ha) hn
    have hlt := hin limit (limit_of_nextSize hn)
    rw [Window.stop] at hstop
    rw [shiftedTotal] at hlt
    omega

theorem Follows.failure_fill (h : scanner.Follows data delivered)
    (hf : scanner.status.failure? = none) (hk : (scanner.fill mode target).scanner.window.Kept)
    (hin : ∀ limit ∈ scanner.limit?, target < scanner.shiftedTotal + limit) :
    (scanner.fill mode target).scanner.status.failure? = none := by
  fun_induction Scanner.fill mode scanner target generalizing delivered with
  | case1 scanner hmore pass fault =>
    exact h.failure_refill (Status.isActive_iff.1 hmore.1) hk hmore.2 hin
  | case2 scanner hmore pass =>
    rename_i hr ih
    have ha := Status.isActive_iff.1 hmore.1
    have hpass := (passes_fill _ target).inherits.kept hk
    have hsteady := (h.reading_refill hmore.1 mode target).steady
    refine ih (h.refill ha hpass).1 (h.failure_refill ha hpass hmore.2 hin) hk ?_
    rw [hsteady.limit, hsteady.shifted]
    exact hin
  | case3 scanner hdone => exact hf

/-- Once a position is reached, what was delivered shows it as the data do. -/
theorem Follows.getD_eq (h : scanner.Follows data delivered)
    (hf : scanner.status.failure? = none) {position : Nat}
    (hr : delivered.length ≤ position → scanner.status.isActive = false) :
    delivered.getD position 0 = data.getD position 0 := by
  rcases Nat.lt_or_ge position delivered.length with hlt | hge
  · obtain ⟨rest, rfl⟩ := h.front
    exact (List.getD_append _ _ _ _ hlt).symm
  · rw [h.ended (Status.eq_exhausted hf (hr hge))]

/-- A look ahead that is not refused answers with the byte of the data. -/
theorem Follows.peek_inReach (h : scanner.Follows data delivered)
    (hf : scanner.status.failure? = none) {distance : Nat}
    (hin : scanner.InReach data distance)
    (hk : (scanner.peek mode distance).scanner.window.Kept) :
    (scanner.peek mode distance).result = .ok (scanner.place.byteAt data distance) ∧
      (scanner.peek mode distance).scanner.status.failure? = none := by
  by_cases hb : scanner.frontier + distance < Word.bound
  · obtain ⟨hresult, hended⟩ := h.result_peek_of_lt hb hk
    have hfailure : (scanner.peek mode distance).scanner.status.failure? = none := by
      rw [scanner_peek hb] at hk ⊢
      refine h.failure_fill hf hk fun limit hl => ?_
      have hlt := hin.within limit hl
      rw [h.frontierOffset_eq]
      omega
    refine ⟨hresult.trans (congrArg Except.ok ?_), hfailure⟩
    exact (h.passes (passes_peek scanner distance) hk).getD_eq hfailure hended
  · have hpast : data.length ≤ scanner.frontierOffset + distance := by
      refine hin.past ?_
      rw [frontierOffset]
      omega
    have hzero : scanner.place.byteAt data distance = 0 := List.getD_eq_default _ _ hpast
    rw [peek_of_bound_le mode scanner (Nat.le_of_not_lt hb), hzero]
    exact ⟨rfl, hf⟩

/-- A look ahead leaves a scanner at the same place of the same data. -/
theorem Follows.peek (h : scanner.Follows data delivered) {distance : Nat}
    (hk : (scanner.peek mode distance).scanner.window.Kept) :
    (scanner.peek mode distance).scanner.Follows data
        (delivered ++ deliveredBytes (scanner.peek mode distance).log) ∧
      Steady scanner (scanner.peek mode distance).scanner :=
  ⟨h.passes (passes_peek scanner distance) hk,
    (h.toSound.passes (passes_peek scanner distance)).steady⟩

/-- A look ahead for a character that is not refused answers with the one in the data. -/
theorem Follows.peekRune_inReach (h : scanner.Follows data delivered)
    (hf : scanner.status.failure? = none) {distance : Nat}
    (hin : ∀ d ∈ scanner.place.sights data (.peekRune distance), scanner.InReach data d)
    (hk : (scanner.peekRune mode distance).scanner.window.Kept) :
    (scanner.peekRune mode distance).result =
        (let lead := scanner.place.byteAt data distance
        .ok (Rune.decode lead ((followers lead distance).map (scanner.place.byteAt data)),
          Rune.width lead)) ∧
      (scanner.peekRune mode distance).scanner.status.failure? = none := by
  -- a look leaves the scanner at the same place, with the same bytes in reach
  let kind (here : Scanner σ) : Prop :=
    (∃ delivered, here.Follows data delivered) ∧ here.status.failure? = none ∧ Steady scanner here
  have hpeek (here : Scanner σ) (hkind : kind here)
      (d : Nat) (hd : d ∈ scanner.place.sights data (.peekRune distance))
      (hlook : (here.peek mode d).scanner.window.Kept) :
      (here.peek mode d).result = .ok (scanner.place.byteAt data d) ∧
        kind (here.peek mode d).scanner := by
    obtain ⟨⟨delivered, hfollows⟩, hnone, hsteady⟩ := hkind
    obtain ⟨hok, hfailure⟩ := hfollows.peek_inReach hnone ((hin d hd).of_steady hsteady) hlook
    obtain ⟨hafter, hstill⟩ := hfollows.peek hlook
    rw [hsteady.place_eq] at hok
    exact ⟨hok, ⟨_, hafter⟩, hfailure, hsteady.trans hstill⟩
  obtain ⟨hresult, hlast⟩ := peekRune_of_peek hpeek ⟨⟨delivered, h⟩, hf, .refl scanner⟩ hk
  exact ⟨hresult, hlast.2.1⟩

end Scanner
end Lookahead
