import Lookahead.Proofs.Streaming

/-!
# The end of the input

The input of a scanner is over when its source is exhausted or has failed, when a token
outgrew the limit, or from the start if it is in memory. From then on the source is left
alone and the window stays where it is, whatever the caller does, so what was handed out
of the window is still there and looks at the same position agree.

An honest source is exhausted when all of its data have been delivered, and a look at a
position behind the data finds that out. From then on the end of the input is reported
just while the frontier is behind the data.

## Main definitions

* `Scanner.Keeps`: what was handed out by one scanner is in the window of another.
* `Scanner.Spent`: a window that lost its buffer has nothing left.
* `Scanner.Frozen`: neither the source nor the window changes any more.
* `Scanner.ReportsEnd`: the end of the input is reported where it is.

## Main statements

* `Scanner.Spent.after`: a window that lost its buffer is of no use any more.
* `Scanner.frozen_at_end`: once the input is over, the window is frozen.
* `Scanner.apply_eq_sights`: an operation that looks ahead looks at its sights in turn.
* `Scanner.end_reported`: the end is neither reported early nor missed.
-/
namespace Lookahead

/-- Reading on leaves a range of the bytes buffered before as it is. -/
theorem Window.segment_append {early late : Window} {rest : List UInt8}
    (h : late.bytes = early.bytes ++ rest) (start stop : Nat) :
    late.segment start (min stop early.filled) = early.segment start stop := by
  have hle : min stop early.filled ≤ early.bytes.length := Nat.min_le_right ..
  rw [segment, segment, h, List.take_append_of_le_length hle]
  refine congrArg (List.drop start) ?_
  rw [List.take_eq_take_iff]
  change min (min stop early.filled) early.filled = min stop early.filled
  omega

namespace Scanner

variable {σ : Type} {scanner : Scanner σ} {data delivered : List UInt8} {mode : Mode}

/-! ## After the end -/

section
variable [Source σ]

/-- A selection that the first scanner hands out is at the same indices in the window of
the second. -/
def Keeps (mode : Mode) (before after : Scanner σ) : Prop :=
  ∀ op bytes, (before.apply mode op).result = .ok (.bytes bytes) →
    after.window.segment before.start (min before.frontier before.window.filled) = bytes

/-- Whatever the caller does, the source is not asked again and the window stays. -/
structure Frozen (mode : Mode) (scanner : Scanner σ) : Prop where
  silent : ∀ ops, requests (scanner.after mode ops).2 = []
  source : ∀ ops, (scanner.after mode ops).1.source = scanner.source
  status : ∀ ops, (scanner.after mode ops).1.status = scanner.status
  window : ∀ ops, (scanner.after mode ops).1.window = scanner.window
  /-- What is handed out is still there later on. -/
  handed : ∀ early late,
    Keeps mode (scanner.after mode early).1 (scanner.after mode (early ++ late)).1
  /-- Looks at one position agree, whatever happens before or between them. -/
  looks : ∀ first last distance further,
    (scanner.after mode first).1.frontierOffset + distance =
      (scanner.after mode last).1.frontierOffset + further →
    ∃ byte, ((scanner.after mode first).1.peek mode distance).result = .ok byte ∧
      ((scanner.after mode last).1.peek mode further).result = .ok byte

/-- Only the selection is handed out. -/
theorem eq_bytes_of_result {op : Op} {bytes : List UInt8}
    (h : (scanner.apply mode op).result = .ok (.bytes bytes)) : bytes = scanner.bytes := by
  cases op with
  | bytes =>
    obtain ⟨read, hread, heq⟩ := Outcome.exists_of_map h
    cases heq
    exact eq_bytes_of_view hread
  | shift =>
    obtain ⟨read, hread, heq⟩ := Outcome.exists_of_result_map h
    cases heq
    exact eq_bytes_of_view hread
  | peek distance =>
    obtain ⟨byte, -, hother⟩ := Outcome.exists_of_result_map h
    cases hother
  | peekRune distance =>
    obtain ⟨found, -, hother⟩ := Outcome.exists_of_result_map h
    cases hother
  | moveBy delta =>
    obtain ⟨_, -, hother⟩ := Outcome.exists_of_result_map h
    cases hother
  | shiftToken =>
    obtain ⟨token, -, hother⟩ := Outcome.exists_of_result_map h
    cases hother
  | free n =>
    obtain ⟨_, -, hother⟩ := Outcome.exists_of_result_map h
    cases hother
  | shiftLent =>
    obtain ⟨bytes?, -, hother⟩ := Outcome.exists_of_result_map h
    cases hother
  | moveTo n => cases h
  | skip => cases h
  | lentBytes => cases h

/-- What is handed out stays as long as what is behind it only grows. -/
theorem keeps_of_append (mode : Mode) {later : Scanner σ} {rest : List UInt8}
    (happend : later.window.bytes = scanner.window.bytes ++ rest) : Keeps mode scanner later := by
  intro op bytes hbytes
  rw [eq_bytes_of_result hbytes]
  exact Window.segment_append happend scanner.start scanner.frontier

/-- **What is handed out stays while the window does.** -/
theorem Sound.keeps (h : scanner.Sound delivered) (mode : Mode) {later : Scanner σ}
    {rest : List UInt8} (hlater : later.Sound (delivered ++ rest))
    (hp : scanner.window.Placed) (hp' : later.window.Placed)
    (horigin : scanner.window.origin = later.window.origin) : Keeps mode scanner later := by
  have hle : scanner.window.origin ≤ delivered.length := by
    rw [← h.stop_eq hp]
    exact Nat.le_add_right ..
  have happend : later.window.bytes = scanner.window.bytes ++ rest := by
    rw [hlater.bytes_eq hp', h.bytes_eq hp, ← horigin, List.drop_append_of_le_length hle]
  exact keeps_of_append mode happend

/-- A window that lost its buffer has no spare room, and once the input is over no bytes
count as buffered either. -/
def Spent (scanner : Scanner σ) : Prop :=
  ¬scanner.window.Kept → scanner.window.spare = [] ∧
    (scanner.status.isActive = false → scanner.window.filled = 0)

omit [Source σ] in
/-- Once the input is over, all that counts as buffered is in the buffer. -/
theorem Spent.filled_le (h : scanner.Spent) (hi : scanner.status.isActive = false) :
    scanner.window.filled ≤ scanner.window.size := by
  by_cases hk : scanner.window.Kept
  · exact hk.filled_le
  · rw [(h hk).2 hi]
    exact Nat.zero_le _

omit [Source σ] in
/-- A window without a buffer moves on only if no bytes count as buffered, and the one that
follows has no room. -/
theorem Spent.relocate (h : scanner.Spent) (hsound : scanner.Sound delivered)
    (ha : scanner.status.isActive = true)
    (hroom : scanner.window.filled ≤ scanner.window.size) (mode : Mode) (target : Nat) :
    (scanner.relocate mode target).scanner.Spent ∧
      ((scanner.relocate mode target).result = .ok () →
        (scanner.relocate mode target).scanner.window.filled ≤
          (scanner.relocate mode target).scanner.window.size) := by
  by_cases hk : scanner.window.Kept
  · rcases scanner.relocate_cases mode target with
      ⟨limit, -, hr⟩ | ⟨size, -, ⟨buffer, -, hr⟩ | ⟨fault, left, -, hr⟩⟩
    · rw [hr]
      exact ⟨fun hlost => absurd hk hlost, fun _ => hroom⟩
    · have hkept : (scanner.rebase buffer (scanner.swapped mode size).pool size).window.Kept := hk
      rw [hr]
      exact ⟨fun hlost => absurd hkept hlost, fun _ => hkept.filled_le⟩
    · rw [hr]
      refine ⟨fun _ => ⟨rfl, fun hi => absurd (ha.symm.trans hi) (by decide)⟩, fun hok => ?_⟩
      cases hok
  · rcases relocate_of_not_kept hk hroom hsound.within mode target with ⟨limit, hr⟩ | ⟨hzero, hr⟩
    · have hnone := hroom
      rw [Window.size_of_not_kept hk] at hnone
      rw [hr]
      exact ⟨fun _ => ⟨(h hk).1, fun _ => Nat.le_zero.1 hnone⟩, fun _ => hroom⟩
    · have hfilled : (scanner.window.buffer.drop scanner.retained).length = 0 :=
        (length_eq_residual rfl).trans hzero
      rw [hr]
      refine ⟨fun _ => ⟨?_, fun _ => hfilled⟩, fun _ => ?_⟩
      · simp only [Scanner.rebase, Window.advance, Nat.zero_sub, List.replicate_zero]
      · exact Nat.le_trans (Nat.le_of_eq hfilled) (Nat.zero_le _)

/-- Without room a read brings nothing. -/
theorem Spent.draw (h : scanner.Spent) (hroom : scanner.window.filled ≤ scanner.window.size) :
    scanner.draw.scanner.Spent := by
  intro hlost
  rw [kept_draw] at hlost
  have hspare := (h hlost).1
  obtain ⟨source, status, bytes, room, hs, -, hlen, -⟩ := scanner.draw_cases
  rw [Window.size_of_not_kept hlost, Window.filled] at hroom
  rw [hspare, List.length_nil] at hlen
  have hroom' : room.length = 0 := by omega
  rw [hs]
  refine ⟨List.eq_nil_of_length_eq_zero hroom', fun _ => ?_⟩
  rw [Window.filled, Buffer.length_append]
  omega

theorem Spent.refill (h : scanner.Spent) (hsound : scanner.Sound delivered)
    (ha : scanner.status.isActive = true) (mode : Mode) (target : Nat) :
    (scanner.refill mode target).scanner.Spent := by
  rw [Scanner.refill]
  split
  · exact h
  rename_i hroom
  obtain ⟨hmoved, hstill⟩ := h.relocate hsound ha (Nat.le_of_not_lt hroom) mode target
  split
  · cases hr : (scanner.relocate mode target).result with
    | error fault => rwa [Outcome.bind_of_error hr]
    | ok u =>
      rw [Outcome.bind_of_ok hr, Outcome.scanner_after]
      split
      · exact hmoved.draw (hstill hr)
      · exact hmoved
  · exact h.draw (Nat.le_of_not_lt hroom)

theorem Spent.passes (h : scanner.Spent) (hsound : scanner.Sound delivered)
    {outcome : Outcome σ Unit} (hp : Passes mode scanner outcome) : outcome.scanner.Spent := by
  induction hp with
  | none => exact h
  | stuck _ _ ih => exact ih
  | more hp _ ha _ ih => exact ih.refill (hsound.passes hp).sound ha mode _

/-- Whatever the caller does, a window that lost its buffer is of no use any more. -/
theorem Spent.after (h : scanner.Spent) (hsound : scanner.Sound delivered) (mode : Mode)
    (ops : List Op) : (scanner.after mode ops).1.Spent := by
  induction ops using List.reverseRecOn with
  | nil => exact h
  | append_singleton ops op ih =>
    rw [after_concat]
    rcases passes_or_quiet mode (scanner.after mode ops).1 op with hp | hq
    · exact ih.passes (hsound.run mode ops) hp
    · rw [Spent, hq.window, hq.status]
      exact ih

/-- After the end of the source a look ahead reads the window and nothing else. -/
theorem result_peek_of_not_active (hi : scanner.status.isActive = false)
    (hroom : scanner.window.filled ≤ scanner.window.size) (mode : Mode) (distance : Nat) :
    (scanner.peek mode distance).result =
      .ok (if scanner.frontier + distance < Word.bound
        then scanner.window.byteAt (scanner.frontier + distance) else 0) := by
  rw [peek]
  split
  · rw [fill_of_not_active mode scanner _ hi, Outcome.pure_bind, look, if_neg (by omega),
      Outcome.result_pure]
  · rfl

/-- **Once the input is over, the window is frozen.** -/
theorem Spent.frozen (h : scanner.Spent) (mode : Mode)
    (hi : scanner.status.isActive = false) : scanner.Frozen mode where
  silent := requests_after_of_not_active hi mode
  source := fun ops => (quiet_after_of_not_active hi mode ops).source
  status := fun ops => (quiet_after_of_not_active hi mode ops).status
  window := fun ops => (quiet_after_of_not_active hi mode ops).window
  handed := by
    intro early late
    have hearly := (quiet_after_of_not_active hi mode early).window
    have hlate := (quiet_after_of_not_active hi mode (early ++ late)).window
    have hsame := congrArg Window.bytes (hlate.trans hearly.symm)
    exact keeps_of_append mode (hsame.trans (List.append_nil _).symm)
  looks := by
    intro first last distance further hposition
    have hfirst := quiet_after_of_not_active hi mode first
    have hlast := quiet_after_of_not_active hi mode last
    have hw : (scanner.after mode first).1.window = scanner.window := hfirst.window
    have hw' : (scanner.after mode last).1.window = scanner.window := hlast.window
    have hroom := h.filled_le hi
    refine ⟨_, result_peek_of_not_active (hfirst.status ▸ hi) (hw ▸ hroom) mode distance, ?_⟩
    rw [result_peek_of_not_active (hlast.status ▸ hi) (hw' ▸ hroom) mode further, hw, hw']
    rw [frontierOffset, frontierOffset, hw, hw'] at hposition
    have hindex : (scanner.after mode first).1.frontier + distance =
        (scanner.after mode last).1.frontier + further := by omega
    rw [hindex]

/-! ## Stable views -/

/-- Views that outlive the scanner are those of the selection, if the input is in memory. -/
theorem lent_of_memory (hl : scanner.window.lent = true) (mode : Mode) :
    scanner.apply mode .lentBytes = .pure (.lent (some scanner.bytes)) scanner ∧
      scanner.apply mode .shiftLent = .pure (.lent (some scanner.bytes)) scanner.skip := by
  simp [Scanner.apply, shiftLent?, lentBytes?, hl]

/-- There are none of a streaming scanner. -/
theorem lent_of_streaming (hl : scanner.window.lent = false) (mode : Mode) :
    scanner.apply mode .lentBytes = .pure (.lent none) scanner ∧
      scanner.apply mode .shiftLent = .pure (.lent none) scanner := by
  simp [Scanner.apply, shiftLent?, lentBytes?, hl]

/-- **Once the input is over, the window is frozen**, whatever ended the input and whatever
is done afterwards. What was handed out of the window before is still there, too, unless the
window has moved on in between or lost its buffer on the way there. Input in memory is over from
the start, and there the views that outlive the scanner are the selection; a streaming scanner
has no such views. -/
theorem frozen_at_end {config : Config} (source : σ) (mode : Mode) (hvalid : config.Valid)
    (hinitial : config.initialCapacity ≤ Word.maxAllocation) :
    (∃ built, ofSource mode config source = .ok built ∧
      ∀ early,
        let here := (built.scanner.after mode early).1
        (here.isEof = true → here.Frozen mode ∧
          (here.window.Kept → ∀ first second, early = first ++ second →
            (built.scanner.after mode first).1.window.origin = here.window.origin →
            ∀ late, Keeps mode (built.scanner.after mode first).1 (here.after mode late).1)) ∧
        here.apply mode .lentBytes = .pure (.lent none) here ∧
        here.apply mode .shiftLent = .pure (.lent none) here) ∧
      ∀ data early,
        let here := ((ofBytes data).after mode early).1
        here.isEof = true ∧ here.Frozen mode ∧
          here.apply mode .bytes = .pure (.bytes here.bytes) here ∧
          here.apply mode .lentBytes = .pure (.lent (some here.bytes)) here ∧
          here.apply mode .shift = .pure (.bytes here.bytes) here.skip ∧
          here.apply mode .shiftLent = .pure (.lent (some here.bytes)) here.skip := by
  constructor
  · have hbuilt := ofSource_of_valid mode source hvalid hinitial
    refine ⟨_, hbuilt, ?_⟩
    intro early here
    have hmade := sound_ofSource hbuilt
    -- a run of the scanner is one of the unread scanner that looks at the first byte before
    have hspent : here.Spent :=
      Spent.after (fun hlost => absurd (Window.kept_vacant _) hlost) (sound_unread hvalid source)
        mode (.peek 0 :: early)
    refine ⟨fun heof => ?_, lent_of_streaming ?_ mode⟩
    · have hi : here.status.isActive = false := by simpa [isEof] using heof
      refine ⟨hspent.frozen mode hi, ?_⟩
      rintro hk first second rfl horigin late
      have hfirst := hmade.run mode first
      have hlater := hfirst.run mode (second ++ late)
      have hsame : (here.after mode late).1 =
          ((((unread config source).peek mode 0).scanner.after mode first).1.after mode
            (second ++ late)).1 := by
        simp only [here, after_append]
      have hwindow := (quiet_after_of_not_active hi mode late).window
      have hlast : (here.after mode late).1.window.Kept := hwindow ▸ hk
      rw [hsame] at hwindow hlast ⊢
      exact hfirst.keeps mode hlater (kept_of_after hk).placed hlast.placed
        (horigin.trans (congrArg Window.origin hwindow.symm))
    · have hunread := sound_unread hvalid source
      exact lent_after hunread (.peek 0 :: early)
  · intro data early here
    have hmemory := sound_ofBytes data
    have hended : (ofBytes data).status.isActive = false := rfl
    have hstatus : here.status = (ofBytes data).status :=
      (quiet_after_of_not_active hended mode early).status
    have hi : here.status.isActive = false := by rw [hstatus, hended]
    have hl : here.window.lent = true := lent_after hmemory early
    have hk : here.window.Kept := kept_after_ofBytes data early
    have hspent : here.Spent := fun hlost => absurd hk hlost
    obtain ⟨hlent, htaken⟩ := lent_of_memory hl mode
    refine ⟨by simp [isEof, hi], hspent.frozen mode hi, ?_, hlent, ?_, htaken⟩
    · rw [Scanner.apply, view_of_kept hk]
      rfl
    · rw [Scanner.apply, Scanner.shift, view_of_kept hk]
      rfl

/-- The source fails after three bytes. Two of them were handed out before, and are still
where they were after the token start and the frontier have moved on. -/
theorem frozen_at_end_failed :
    let source : Source.Scripted :=
      { data := [1, 2, 3, 4], script := [.deliver 2, .deliver 1, .fail ⟨.timedOut, none⟩] }
    let built := (unread { initialCapacity := 4 } source).peek .checked 0
    let before := (built.scanner.after .checked [.moveTo 2]).1
    let here := (built.scanner.after .checked [.moveTo 2, .peek 0, .skip, .peek 1]).1
    before.bytes = [1, 2] ∧ here.err = some (.source ⟨.timedOut, none⟩) ∧
      here.Frozen .checked ∧ Keeps .checked before (here.after .checked [.moveTo 9, .skip]).1 := by
  intro source built before here
  have hvalid : ({ initialCapacity := 4 } : Config).Valid := ⟨by decide, nofun⟩
  obtain ⟨⟨made, hmade, hfrozen⟩, -⟩ := frozen_at_end source .checked hvalid (by decide)
  obtain rfl : made = built := Except.ok.inj
    (hmade.symm.trans (ofSource_eq_ok_iff.2 ⟨hvalid, by decide, rfl⟩))
  obtain ⟨hhere, -⟩ := hfrozen [.moveTo 2, .peek 0, .skip, .peek 1]
  obtain ⟨hstays, hkeeps⟩ := hhere (by decide +kernel)
  exact ⟨by decide +kernel, by decide +kernel, hstays,
    hkeeps (by decide +kernel) [.moveTo 2] [.peek 0, .skip, .peek 1] rfl (by decide +kernel)
      [.moveTo 9, .skip]⟩

/-! ## Finding the end -/

/-- The source has ended, and whatever is done from now on, the end of the input is reported
just while the frontier is behind the given number of bytes. -/
structure ReportsEnd (mode : Mode) (scanner : Scanner σ) (length : Nat) : Prop where
  ended : scanner.isEof = true
  err : ∀ ops,
    let there := (scanner.after mode ops).1
    there.err = if length ≤ there.frontierOffset then some .exhausted else none

/-- The end is not reported before the frontier has come to it. -/
theorem Streams.le_of_exhausted (h : scanner.Streams data delivered)
    (herr : scanner.err = some .exhausted) : data.length ≤ scanner.frontierOffset := by
  have hi : scanner.status.isActive = false := by
    by_contra ha
    simp [err, Status.isActive_iff.1 (by simpa using ha)] at herr
  rw [h.err_eq (.inl hi)] at herr
  by_cases hlt : scanner.frontierOffset < data.length
  · simp [hlt] at herr
  · exact Nat.le_of_not_lt hlt

/-- **An exhausted source is reported** as the frontier has it from then on. -/
theorem Follows.reportsEnd (h : scanner.Follows data delivered) (mode : Mode)
    (he : scanner.status = .exhausted) : scanner.ReportsEnd mode data.length where
  ended := by simp [isEof, he]
  err := by
    intro ops there
    have hi : scanner.status.isActive = false := by rw [he, Status.isActive_exhausted]
    have hstatus : there.status = .exhausted :=
      (quiet_after_of_not_active hi mode ops).status.trans he
    have hwindow : there.window = scanner.window := (quiet_after_of_not_active hi mode ops).window
    have hstop := h.stop_eq h.kept.placed
    rw [h.ended he, Window.stop, ← hwindow] at hstop
    rw [err, hstatus]
    by_cases hle : data.length ≤ there.frontierOffset
    · have hbehind : ¬there.frontier < there.window.filled := by
        rw [frontierOffset] at hle
        omega
      simp only [if_pos hle, if_neg hbehind]
    · have hbefore : there.frontier < there.window.filled := by
        rw [frontierOffset] at hle
        omega
      simp only [if_neg hle, if_pos hbefore]

/-- It is not missed once the source has ended. -/
theorem Streams.reportsEnd (h : scanner.Streams data delivered) (mode : Mode)
    (hi : scanner.status.isActive = false) : scanner.ReportsEnd mode data.length :=
  h.toFollows.reportsEnd mode (Status.eq_exhausted h.unfailed hi)

/-- Only an operation that looks ahead has sights. -/
theorem looks_of_mem_sights {op : Op} {distance : Nat} (hd : distance ∈ scanner.sights mode op) :
    op.looks = true := by
  cases op with
  | peek distance => rfl
  | peekRune distance => rfl
  | _ => cases hd

/-- An operation that looks ahead looks at its sights in turn. -/
theorem apply_eq_sights (mode : Mode) (scanner : Scanner σ) {op : Op} (hop : op.looks = true) :
    (scanner.apply mode op).scanner = (scanner.peekEach mode (scanner.sights mode op)).scanner ∧
      (scanner.apply mode op).log = (scanner.peekEach mode (scanner.sights mode op)).log := by
  cases op with
  | peek distance =>
    rw [Scanner.apply, sights, peekEach]
    cases hr : (scanner.peek mode distance).result with
    | ok byte => simp [Outcome.bind_of_ok hr, peekEach]
    | error fault => simp [Outcome.bind_of_error hr]
  | peekRune distance =>
    rw [Scanner.apply, sights, peekRune]
    cases hr : (scanner.peek mode distance).result with
    | ok lead => simp [Outcome.bind_of_ok hr, peekEach]
    | error fault => simp [Outcome.bind_of_error hr, peekEach]
  | _ => cases hop

/-- **A look behind all that is delivered ends the source.** -/
theorem Sound.ended_peekEach (h : scanner.Sound delivered) {distances : List Nat}
    {distance : Nat} (hd : distance ∈ distances)
    (hword : scanner.frontier + distance < Word.bound)
    (hk : (scanner.peekEach mode distances).scanner.window.Kept)
    (hpast : (delivered ++ deliveredBytes (scanner.peekEach mode distances).log).length ≤
      scanner.frontierOffset + distance) :
    (scanner.peekEach mode distances).scanner.status.isActive = false := by
  induction distances generalizing scanner delivered with
  | nil => cases hd
  | cons first rest ih =>
    have hlook := kept_of_peekEach hk
    have hpasses : Passes mode scanner (scanner.peek mode first).forget := passes_peek scanner first
    obtain ⟨byte, hok⟩ := Outcome.result_forget_eq_ok_iff.1 (hpasses.result_of_kept hlook)
    obtain ⟨hsound, hsteady⟩ := h.passes hpasses
    rw [peekEach] at hk hpast ⊢
    rw [Outcome.bind_of_ok hok, Outcome.scanner_after, Outcome.scanner_map] at hk
    rw [Outcome.bind_of_ok hok, Outcome.log_after, Outcome.log_map, deliveredBytes_append,
      ← List.append_assoc] at hpast
    rw [Outcome.bind_of_ok hok, Outcome.scanner_after, Outcome.scanner_map]
    rcases List.mem_cons.1 hd with rfl | hd
    · have hi : (scanner.peek mode distance).scanner.status.isActive = false := by
        refine (h.result_peek_of_lt hword hlook).2 (Nat.le_trans ?_ hpast)
        exact (List.prefix_append _ _).length_le
      have hrest : Passes mode (scanner.peek mode distance).scanner
          ((scanner.peek mode distance).scanner.peekEach mode rest).forget := passes_peekEach _ rest
      have hsame := (hrest.eq_of_not_active hi).1
      rw [Outcome.scanner_forget] at hsame
      rwa [hsame]
    · refine ih hsound hd ?_ hk ?_
      · exact Nat.lt_of_le_of_lt (Nat.add_le_add_right hsteady.frontier_le _) hword
      · rwa [← hsteady.frontier] at hpast

/-- **A look behind the data finds their end.** -/
theorem Streams.ended_peekEach (h : scanner.Streams data delivered) {distances : List Nat}
    {distance : Nat} (hd : distance ∈ distances)
    (hword : scanner.frontier + distance < Word.bound)
    (hpast : data.length ≤ scanner.frontierOffset + distance)
    (hk : (scanner.peekEach mode distances).scanner.window.Kept) :
    (scanner.peekEach mode distances).scanner.status.isActive = false := by
  refine h.toSound.ended_peekEach hd hword hk (Nat.le_trans ?_ hpast)
  exact (h.toFollows.passes (passes_peekEach scanner distances) hk).front.length_le

/-- From a look behind the data on, their end is reported where it is. -/
theorem Streams.reportsEnd_apply (h : scanner.Streams data delivered) {op : Op} {distance : Nat}
    (hd : distance ∈ scanner.sights mode op) (hword : scanner.frontier + distance < Word.bound)
    (hpast : data.length ≤ scanner.frontierOffset + distance)
    (hk : (scanner.apply mode op).scanner.window.Kept) :
    (scanner.apply mode op).scanner.ReportsEnd mode data.length := by
  have hscanner := (apply_eq_sights mode scanner (looks_of_mem_sights hd)).1
  refine (h.apply hk).reportsEnd mode ?_
  rw [hscanner] at hk ⊢
  exact h.ended_peekEach hd hword hpast hk

end

end Scanner
end Lookahead
