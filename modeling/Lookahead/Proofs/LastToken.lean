import Lookahead.Proofs.Ending
import Lookahead.Proofs.Limit

/-!
# The last token

The end of the data is found by asking the source once more, and the source is asked only
when there is room for a byte. So a token that ends with the data needs one byte of the
limit for that, on top of its own length. If fewer bytes than the limit remain from the token
start on, no look at it is refused, however far ahead: it finds the end of the data. A token
that fills the limit to the last byte is refused instead as soon as a byte behind it is looked
at, whether the data go on or not.

## Main definitions

* `Scanner.LeavesRoom`: a look at a distance that is not refused.
* `Scanner.LooksWithRoom`: all looks of a run are of this kind.

## Main statements

* `Scanner.Follows.failure_run`: a run whose looks leave room does not fail.
* `Scanner.Follows.exhausted_apply`: such a look behind the data exhausts the source.
* `Scanner.end_found_if_room_left`: which looks of a run find the end of the data, and which
  are refused.
-/
namespace Lookahead.Scanner

variable {σ : Type} {scanner : Scanner σ} {data delivered : List UInt8} {mode : Mode}
  {limit distance : Nat}

/-- Fewer bytes of the data than the limit remain from the token start on, or the byte looked
at is one of those that the limit allows for. -/
def LeavesRoom (data : List UInt8) (limit : Nat) (scanner : Scanner σ) (distance : Nat) : Prop :=
  data.length < scanner.shiftedTotal + limit ∨ scanner.pos + distance < limit

instance : Decidable (scanner.LeavesRoom data limit distance) :=
  inferInstanceAs (Decidable (_ ∨ _))

theorem LeavesRoom.of_steady {before after : Scanner σ}
    (h : before.LeavesRoom data limit distance) (hs : Steady before after) :
    after.LeavesRoom data limit distance := by
  rwa [LeavesRoom, hs.shifted, hs.pos_eq]

variable [Source σ]

/-! ## Looks that leave room -/

/-- A token with fewer bytes than the limit up to the end of the data is never refused. -/
theorem Follows.failure_passes (h : scanner.Follows data delivered)
    (hf : scanner.status.failure? = none) (hlimit : scanner.limit? = some limit)
    (hshort : data.length < scanner.shiftedTotal + limit) {outcome : Outcome σ Unit}
    (hp : Passes mode scanner outcome) (hk : outcome.scanner.window.Kept) :
    outcome.scanner.status.failure? = none := by
  induction hp with
  | none => exact hf
  | stuck _ hlost => exact absurd hk hlost
  | @more outcome target hp _ ha _ ih =>
    have hhere := h.passes hp ((inherits_refill _ _ _).kept hk)
    have hsteady := (h.toSound.passes hp).steady
    rcases (hhere.refill (Status.isActive_iff.1 ha) hk).2 with hnone | ⟨bound, hn, -⟩
    · exact hnone
    · -- a refused token begins with a window that holds as many bytes of it as the limit
      obtain ⟨hstart, hfilled⟩ := hhere.refused hhere.kept ha hn
      have hbound := (limit_of_nextSize hn).symm.trans (hsteady.limit.trans hlimit)
      have hstop := hhere.stop_eq hhere.kept.placed
      have hfront := hhere.front.length_le
      rw [← hsteady.shifted, shiftedTotal] at hshort
      rw [Window.stop] at hstop
      cases hbound
      omega

theorem Follows.failure_peek (h : scanner.Follows data delivered)
    (hf : scanner.status.failure? = none) (hlimit : scanner.limit? = some limit)
    (hroom : scanner.LeavesRoom data limit distance)
    (hk : (scanner.peek mode distance).scanner.window.Kept) :
    (scanner.peek mode distance).scanner.status.failure? = none := by
  rcases hroom with hshort | hwithin
  · exact h.failure_passes hf hlimit hshort (passes_peek scanner distance) hk
  · by_cases hb : scanner.frontier + distance < Word.bound
    · rw [scanner_peek hb] at hk ⊢
      refine h.failure_fill hf hk fun bound hl => ?_
      cases hlimit.symm.trans hl
      rw [h.frontierOffset_eq]
      omega
    · rw [peek_of_bound_le mode scanner (Nat.le_of_not_lt hb)]
      exact hf

theorem Follows.failure_peekEach (h : scanner.Follows data delivered)
    (hf : scanner.status.failure? = none) (hlimit : scanner.limit? = some limit)
    {distances : List Nat} (hroom : ∀ d ∈ distances, scanner.LeavesRoom data limit d)
    (hk : (scanner.peekEach mode distances).scanner.window.Kept) :
    (scanner.peekEach mode distances).scanner.status.failure? = none := by
  induction distances generalizing scanner delivered with
  | nil => exact hf
  | cons first rest ih =>
    have hlook := kept_of_peekEach hk
    have hfirst : (scanner.peek mode first).scanner.status.failure? = none :=
      h.failure_peek hf hlimit (hroom first List.mem_cons_self) hlook
    obtain ⟨hlooked, hsteady⟩ := h.peek hlook
    rcases scanner_peekEach_cons mode scanner first rest with hs | hs
    · rw [hs]
      exact hfirst
    · rw [hs] at hk ⊢
      refine ih hlooked hfirst (hsteady.limit.trans hlimit) (fun d hd => ?_) hk
      exact (hroom d (List.mem_cons_of_mem _ hd)).of_steady hsteady

theorem Follows.failure_apply (h : scanner.Follows data delivered)
    (hf : scanner.status.failure? = none) (hlimit : scanner.limit? = some limit) {op : Op}
    (hroom : ∀ d ∈ scanner.sights mode op, scanner.LeavesRoom data limit d)
    (hk : (scanner.apply mode op).scanner.window.Kept) :
    (scanner.apply mode op).scanner.status.failure? = none := by
  cases hop : op.looks with
  | false =>
    rw [(quiet_apply mode scanner hop).status]
    exact hf
  | true =>
    rw [(apply_eq_sights mode scanner hop).1] at hk ⊢
    exact h.failure_peekEach hf hlimit hroom hk

/-- All looks of a run leave room. -/
def LooksWithRoom (mode : Mode) (data : List UInt8) (limit : Nat) (scanner : Scanner σ)
    (ops : List Op) : Prop :=
  scanner.Along mode
    (fun _ here op => ∀ d ∈ here.sights mode op, here.LeavesRoom data limit d) ops

instance {ops : List Op} : Decidable (scanner.LooksWithRoom mode data limit ops) :=
  inferInstanceAs (Decidable (scanner.Along mode
    (fun _ here op => ∀ d ∈ here.sights mode op, here.LeavesRoom data limit d) ops))

/-- **A run whose looks leave room does not fail.** -/
theorem Follows.failure_run (h : scanner.Follows data delivered)
    (hf : scanner.status.failure? = none) (hlimit : scanner.limit? = some limit)
    {ops : List Op} (hroom : scanner.LooksWithRoom mode data limit ops)
    (hk : (scanner.after mode ops).1.window.Kept) :
    (scanner.after mode ops).1.status.failure? = none := by
  induction ops using List.reverseRecOn with
  | nil => exact hf
  | append_singleton ops op ih =>
    have hbefore := kept_of_after hk
    rw [after_concat] at hk ⊢
    exact (h.run hbefore).failure_apply (ih hroom.init hbefore)
      ((limit_after h.toSound ops).trans hlimit) hroom.last hk

/-- Within a limit no window is too large, so a look can lose the window only where it runs
out of words. -/
theorem Sound.kept_apply_of_limit {log : List Event} (h : scanner.Sound (deliveredBytes log))
    (hk : scanner.window.Kept) (hlimit : scanner.limit? = some limit)
    (hmax : limit ≤ Word.maxAllocation) {op : Op}
    (hcount : Numbered mode (log ++ (scanner.apply mode op).log)) :
    (scanner.apply mode op).scanner.window.Kept := by
  refine h.kept_apply hk ?_ (countable_of_numbered hcount)
  have hannounced := (h.affordable_of_limit mode hlimit hmax [op]).1
  rwa [after, after, List.append_nil] at hannounced

/-- **A look behind the data that leaves room exhausts the source.** -/
theorem Follows.exhausted_apply (h : scanner.Follows data delivered)
    (hf : scanner.status.failure? = none) (hlimit : scanner.limit? = some limit) {op : Op}
    (hroom : ∀ d ∈ scanner.sights mode op, scanner.LeavesRoom data limit d)
    (hk : (scanner.apply mode op).scanner.window.Kept)
    (hd : distance ∈ scanner.sights mode op) (hword : scanner.frontier + distance < Word.bound)
    (hpast : data.length ≤ scanner.frontierOffset + distance) :
    (scanner.apply mode op).scanner.status = .exhausted := by
  have hfailure := h.failure_apply hf hlimit hroom hk
  rw [(apply_eq_sights mode scanner (looks_of_mem_sights hd)).1] at hfailure hk ⊢
  have hp : Passes mode scanner (scanner.peekEach mode (scanner.sights mode op)).forget :=
    passes_peekEach scanner _
  refine Status.eq_exhausted hfailure (h.ended_peekEach hd hword hk ?_)
  exact Nat.le_trans (h.passes hp hk).front.length_le hpast

/-! ## Looks that do not -/

theorem Sound.spare_after_of_exhausted (h : scanner.Sound delivered)
    (hspare : scanner.status = .exhausted → scanner.window.spare ≠ []) {ops : List Op}
    (hk : (scanner.after mode ops).1.window.Kept) :
    (scanner.after mode ops).1.status = .exhausted →
      (scanner.after mode ops).1.window.spare ≠ [] := by
  induction ops using List.reverseRecOn with
  | nil => exact hspare
  | append_singleton ops op ih =>
    have hbefore := ih (kept_of_after hk)
    rw [after_concat] at hk ⊢
    rcases passes_or_quiet mode (scanner.after mode ops).1 op with hp | hq
    · exact (h.run mode ops).spare_of_exhausted hbefore hp hk
    · rwa [hq.status, hq.window]

/-- **A look that leaves no room is refused**, if none was refused before. -/
theorem Follows.refused_of_not_leavesRoom (h : scanner.Follows data delivered)
    (hk : (scanner.peek mode distance).scanner.window.Kept)
    (hspare : scanner.status = .exhausted → scanner.window.spare ≠ [])
    (hf : scanner.status.failure? = none) (hlimit : scanner.limit? = some limit)
    (hword : scanner.frontier + distance < Word.bound)
    (hfull : ¬scanner.LeavesRoom data limit distance) :
    let looked := scanner.peek mode distance
    let requested := Word.saturate (scanner.pos + distance + 1)
    looked.result = .ok 0 ∧
      looked.scanner.status = .failed (.limitExceeded requested limit) := by
  obtain ⟨hlong, hbehind⟩ := not_or.1 hfull
  have hactive : scanner.status = .active := by
    by_contra hne
    have hi : scanner.status.isActive = false := by
      rwa [← Bool.not_eq_true, Status.isActive_iff]
    have he := Status.eq_exhausted hf hi
    exact hlong (h.length_lt_of_exhausted he (hspare he) hlimit)
  obtain ⟨hresult, hstatus, -⟩ := h.peek_refused_of_le hactive hlimit hk
    (Nat.le_of_not_lt hbehind) hword (Nat.le_of_not_lt hlong)
  exact ⟨hresult, hstatus⟩

/-! ## Runs -/

/-- **The end of the data is found if the token leaves room.** As long as fewer bytes than the
limit remain from the token start on whenever the caller looks ahead, or the bytes looked at
lie within the limit, the source does not fail, and any look behind the data exhausts it: the
end of the input is then reported where it is. A look behind the limit is refused once as many
bytes as the limit remain or more, also if the data end there. So it is as long as a checked
run is given fewer bytes than a word can count. -/
theorem end_found_if_room_left {config : Config} {source : σ} (mode : Mode)
    (hvalid : config.Valid) (hlimit : config.maxCapacity? = some limit) (hle : limit < 2 ^ 60)
    (hhonest : Source.Delivers source data) :
    ∃ built, ofSource mode config source = .ok built ∧
      (data = [] → built.scanner.ReportsEnd mode data.length) ∧
      ∀ ops,
        let here := (built.scanner.after mode ops).1
        let log := built.log ++ (built.scanner.after mode ops).2
        Numbered mode log →
        (built.scanner.LooksWithRoom mode data limit ops →
          here.status.failure? = none ∧
            ∀ op, (∀ d ∈ here.sights mode op, here.LeavesRoom data limit d) →
              ∀ distance ∈ here.sights mode op, here.frontier + distance < Word.bound →
                data.length ≤ here.frontierOffset + distance →
                let looked := here.apply mode op
                Numbered mode (log ++ looked.log) →
                  looked.scanner.status = .exhausted ∧
                    looked.scanner.ReportsEnd mode data.length) ∧
          (here.status.failure? = none → ∀ distance, here.frontier + distance < Word.bound →
            ¬here.LeavesRoom data limit distance →
            let looked := here.peek mode distance
            Numbered mode (log ++ looked.log) →
              let requested := Word.saturate (here.pos + distance + 1)
              looked.result = .ok 0 ∧
                looked.scanner.status = .failed (.limitExceeded requested limit)) := by
  have hmax : limit ≤ Word.maxAllocation := Nat.le_trans (Nat.le_of_lt hle) (by decide)
  have hpos : 0 < limit := Nat.lt_of_lt_of_le hvalid.1 (hvalid.2 limit hlimit)
  have hunread := follows_unread hvalid hhonest
  have hroom : ∀ d ∈ (unread config source).sights mode (.peek 0),
      (unread config source).LeavesRoom data limit d :=
    fun d hd => .inr (by rw [List.mem_singleton.1 hd]; exact hpos)
  have hinitial := Nat.le_trans (hvalid.2 limit hlimit) hmax
  have hbuilt := ofSource_of_valid mode source hvalid hinitial
  have haffordable : Affordable ((unread config source).peek mode 0).log :=
    (hunread.announces_passes (passes_peek _ 0)).affordable hlimit hmax
  have hkept := kept_ofSource hbuilt haffordable
  obtain ⟨hmade, hsteady⟩ := hunread.peek hkept
  have hbound : ((unread config source).peek mode 0).scanner.limit? = some limit :=
    hsteady.limit.trans hlimit
  have hfirst : ((unread config source).apply mode (.peek 0)).scanner.status.failure? = none :=
    hunread.failure_apply rfl hlimit hroom hkept
  refine ⟨_, hbuilt, ?_, fun ops => ?_⟩
  · rintro rfl
    have hexhausted : ((unread config source).apply mode (.peek 0)).scanner.status = .exhausted :=
      hunread.exhausted_apply rfl hlimit hroom hkept (List.mem_singleton.2 rfl)
        (by decide : 0 < Word.bound) (Nat.zero_le _)
    exact hmade.reportsEnd mode hexhausted
  intro here log hcount
  have hlog : Affordable log :=
    affordable_append.2 ⟨haffordable, (hmade.announces_run ops).affordable hbound hmax⟩
  have hk : here.window.Kept := kept_of_numbered hbuilt hlog hcount
  have hhere : here.Follows data _ := hmade.run hk
  have hsound : here.Sound (deliveredBytes log) := sound_after hbuilt ops
  have hlimited : here.limit? = some limit := (limit_after hmade.toSound ops).trans hbound
  have hlook (op : Op) : Numbered mode (log ++ (here.apply mode op).log) →
      (here.apply mode op).scanner.window.Kept := hsound.kept_apply_of_limit hk hlimited hmax
  refine ⟨fun hlooks => ?_, fun hfailure distance hword hfull => ?_⟩
  · have hfailure := hmade.failure_run hfirst hbound hlooks hk
    refine ⟨hfailure, fun op hop distance hd hword hpast => ?_⟩
    intro looked hmore
    have he := hhere.exhausted_apply hfailure hlimited hop (hlook op hmore) hd hword hpast
    exact ⟨he, (hhere.apply (hlook op hmore)).reportsEnd mode he⟩
  · intro looked hmore
    have hpasses : Passes mode (unread config source)
        ((unread config source).peek mode 0).forget := passes_peek _ 0
    have hspare := hunread.spare_of_exhausted (fun he => by cases he) hpasses hkept
    exact hhere.refused_of_not_leavesRoom (hlook (.peek distance) hmore)
      (hmade.spare_after_of_exhausted hspare hk) hfailure hlimited hword hfull

/-- Seven of twelve bytes remain behind a token start, and a look far behind the limit of
eight finds the end. Where eight remain, a look at the byte behind them is refused. -/
theorem end_found_if_room_left_by_one :
    let source : Source.Scripted :=
      { data := [1, 2, 3, 4, 5, 6, 7, 8, 9, 10, 11, 12]
        script := [.deliver 3, .fail ⟨.interrupted, none⟩], pace? := some 4 }
    let config : Config := { initialCapacity := 4, maxCapacity? := some 8 }
    let built := (unread config source).peek .checked 0
    let short := (built.scanner.after .checked [.moveTo 5, .skip, .peek 2]).1
    let full := (built.scanner.after .checked [.moveTo 4, .skip, .moveTo 8]).1
    let looked := (short.apply .checked (.peek 100)).scanner
    looked.status = .exhausted ∧ (looked.after .checked [.moveTo 7]).1.err = some .exhausted ∧
      (full.peek .checked 0).scanner.status = .failed (.limitExceeded 9 8) := by
  intro source config built short full looked
  have hvalid : config.Valid := ⟨by decide, by decide⟩
  have hhonest : Source.Delivers source source.data :=
    Source.delivers_scripted ⟨by decide, by decide⟩
  obtain ⟨_, hmade, -, hruns⟩ := end_found_if_room_left .checked hvalid rfl (by decide) hhonest
  obtain ⟨-, -, rfl⟩ := ofSource_eq_ok_iff.1 hmade
  obtain ⟨-, hfind⟩ := (hruns [.moveTo 5, .skip, .peek 2] (by decide +kernel)).1
    (by decide +kernel)
  obtain ⟨hexhausted, hreports⟩ := hfind (.peek 100) (by decide +kernel) 100 (by decide +kernel)
    (by decide +kernel) (by decide +kernel) (by decide +kernel)
  obtain ⟨-, hrefused⟩ := (hruns [.moveTo 4, .skip, .moveTo 8] (by decide +kernel)).2
    (by decide +kernel) 0 (by decide +kernel) (by decide +kernel) (by decide +kernel)
  exact ⟨hexhausted, (hreports.err [.moveTo 7]).trans (if_pos (by decide +kernel)),
    hrefused.trans (by decide +kernel)⟩

/-- The data are one token that fills the limit. The look that would find their end is
refused. -/
theorem full_token_refused :
    let source : Source.Scripted := { data := [1, 2, 3, 4, 5, 6, 7, 8] }
    let config : Config := { initialCapacity := 8, maxCapacity? := some 8 }
    let built := (unread config source).peek .checked 0
    let here := (built.scanner.after .checked [.moveTo 8]).1
    let looked := here.peek .checked 0
    config.Valid ∧ Source.Delivers source source.data ∧
      source.data.length - here.shiftedTotal = 8 ∧
      source.data.length ≤ here.frontierOffset + 0 ∧
      looked.scanner.status = .failed (.limitExceeded 9 8) ∧
      looked.scanner.err ≠ some .exhausted := by
  intro source config built here looked
  exact ⟨⟨by decide, by decide⟩, Source.delivers_scripted ⟨by decide, by decide⟩,
    by decide +kernel, by decide +kernel, by decide +kernel, by decide +kernel⟩

end Lookahead.Scanner
