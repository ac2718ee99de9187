import Lookahead.Proofs.Strict.Peek
import Lookahead.Scanner.Run

/-!
# Strict runs

All operations of a scanner with every test made, and lists of them. A strict run ends
with the first finding, so one that does not is a list of steps.

## Main definitions

* `Strict.pos` and `Strict.offset`: what a caller may ask for at any time.
* `Strict.apply`: one operation.
* `Strict.run`: a list of them.

## Main statements

* `Strict.run_agrees` and `Strict.after_agrees`: where nothing is found, the modes do
  not differ.
* `Strict.clear_apply`: nothing is found by an operation within the contract.
-/
namespace Lookahead.Strict

variable {σ : Type}

/-! ## Positions and the selection -/

/-- How far the frontier is from the token start. -/
def pos (scanner : Scanner σ) : Tested Nat := difference scanner.frontier scanner.start

/-- The stream offset of the token start. -/
def offset (scanner : Scanner σ) : Tested Nat := sum scanner.window.base scanner.start

/-- The bytes of the selection, as far as they are buffered. -/
def selection (scanner : Scanner σ) : Tested (List UInt8) := do
  let stop := min scanner.frontier scanner.window.filled
  let start := min scanner.start stop
  range start stop scanner.window.size
  return scanner.window.segment start stop

/-- What is cut off at the end of the list is not there. -/
theorem segment_min (window : Window) (start stop : Nat) :
    window.segment (min start (min stop window.filled)) (min stop window.filled) =
      window.segment start stop := by
  have hstop : window.bytes.take (min stop window.filled) = window.bytes.take stop := by
    rw [Window.filled, Buffer.length, ← Window.bytes, List.take_eq_take_iff]
    omega
  rw [Window.segment, Window.segment, hstop]
  rcases Nat.le_total start (min stop window.filled) with hle | hle
  · rw [Nat.min_eq_left hle]
  · have hlen : (window.bytes.take stop).length = min stop window.filled := List.length_take
    rw [Nat.min_eq_right hle, List.drop_eq_nil_of_le (Nat.le_of_eq hlen),
      List.drop_eq_nil_of_le (hlen ▸ hle)]

theorem selection_agrees {scanner : Scanner σ} {bytes : List UInt8}
    (h : selection scanner = .ok bytes) : bytes = scanner.bytes ∧ scanner.view = .ok bytes := by
  simp only [selection, bind_eq_ok, range, require_eq_ok, exists_const, pure_eq_ok] at h
  obtain ⟨⟨-, hsize⟩, rfl⟩ := h
  have hbytes : scanner.window.segment _ _ = scanner.bytes := segment_min ..
  exact ⟨hbytes, hbytes ▸ Scanner.view_of_le hsize⟩

theorem clear_selection {scanner : Scanner σ} (hk : scanner.window.Kept) :
    Clear (selection scanner) := by
  have hsize := hk.filled_le
  exact (clear_range ⟨Nat.min_le_right .., by omega⟩).bind fun _ _ => clear_pure _

theorem offset_agrees {scanner : Scanner σ} {n : Nat} (h : offset scanner = .ok n) (mode : Mode) :
    scanner.offset mode = .ok n := by
  obtain ⟨hlt, rfl⟩ := sum_eq_ok.1 h
  exact Mode.add_of_lt mode hlt

theorem offset_eq {scanner : Scanner σ} (h : scanner.shiftedTotal < Word.bound) :
    offset scanner = .ok scanner.shiftedTotal := by
  have horigin := Nat.lt_of_le_of_lt (Nat.le_add_right _ scanner.start) h
  rw [offset, Window.base_of_lt horigin]
  exact sum_eq_ok.2 ⟨h, rfl⟩

theorem pos_eq {scanner : Scanner σ} (h : scanner.start ≤ scanner.frontier) :
    pos scanner = .ok scanner.pos := difference_eq_ok.2 ⟨h, rfl⟩

/-! ## Operations -/

/-- Moves the frontier by `delta` bytes. -/
def moveBy (scanner : Scanner σ) (delta : Int) : Tested (Step σ Unit) := do
  let frontier := Word.saturate (scanner.frontier + delta).toNat
  require (scanner.start ≤ frontier) (.fault .beforeToken)
  return {
    value := (), scanner := { scanner with frontier := max frontier scanner.start }, log := [] }

/-- Takes the selection out and starts the next token. -/
def shift (scanner : Scanner σ) : Tested (Step σ (List UInt8)) := do
  let bytes ← selection scanner
  return { value := bytes, scanner := scanner.skip, log := [] }

/-- Takes the selection out together with its stream offset. -/
def shiftToken (scanner : Scanner σ) : Tested (Step σ Token) := do
  let offset ← offset scanner
  let shifted ← shift scanner
  return shifted.map fun bytes => ⟨bytes, offset⟩

/-- The selection, if the input is in memory. -/
def lentBytes? (scanner : Scanner σ) : Tested (Option (List UInt8)) :=
  if scanner.window.lent then do
    let bytes ← selection scanner
    return some bytes
  else
    return none

/-- Takes the selection out if the input is in memory; else nothing happens. -/
def shiftLent? (scanner : Scanner σ) : Tested (Step σ (Option (List UInt8))) := do
  match ← lentBytes? scanner with
  | some bytes => return { value := some bytes, scanner := scanner.skip, log := [] }
  | none => return { value := none, scanner, log := [] }

/-- Frees `n` more shifted bytes. -/
def free (scanner : Scanner σ) (n : Nat) : Tested (Step σ Unit) := do
  let released ← release scanner.pool n
  require (released.spill = 0 ∨ released.pool.isDrained = true) .spillBeforeDrained
  let consumed ← sum scanner.consumed released.spill
  require (consumed ≤ scanner.start) (.fault (.pastShifted (consumed - scanner.start)))
  return {
    value := ()
    scanner := { scanner with pool := released.pool, consumed := min consumed scanner.start }
    log := released.log }

theorem moveBy_agrees {scanner : Scanner σ} {delta : Int} {step : Step σ Unit}
    (h : moveBy scanner delta = .ok step) (mode : Mode) :
    scanner.moveBy mode delta = step.outcome := by
  simp only [moveBy, bind_eq_ok, require_eq_ok, pure_eq_ok] at h
  obtain ⟨-, hle, rfl⟩ := h
  rw [Scanner.moveBy, if_neg (Mode.not_rejects hle)]
  rfl

theorem shift_agrees {scanner : Scanner σ} {step : Step σ (List UInt8)}
    (h : shift scanner = .ok step) : scanner.shift = step.outcome := by
  simp only [shift, bind_eq_ok, pure_eq_ok] at h
  obtain ⟨bytes, hbytes, rfl⟩ := h
  rw [Scanner.shift, (selection_agrees hbytes).2]
  rfl

theorem shiftToken_agrees {scanner : Scanner σ} {step : Step σ Token}
    (h : shiftToken scanner = .ok step) (mode : Mode) :
    scanner.shiftToken mode = step.outcome := by
  simp only [shiftToken, shift, bind_eq_ok, pure_eq_ok] at h
  obtain ⟨n, hn, -, ⟨bytes, hbytes, rfl⟩, rfl⟩ := h
  rw [Scanner.shiftToken, offset_agrees hn mode, Scanner.shift, (selection_agrees hbytes).2]
  rfl

theorem lentBytes?_agrees {scanner : Scanner σ} {bytes? : Option (List UInt8)}
    (h : lentBytes? scanner = .ok bytes?) : bytes? = scanner.lentBytes? := by
  rw [lentBytes?] at h
  rw [Scanner.lentBytes?]
  split at h
  · rename_i hl
    simp only [bind_eq_ok, pure_eq_ok] at h
    obtain ⟨bytes, hbytes, rfl⟩ := h
    rw [if_pos hl, (selection_agrees hbytes).1]
  · rename_i hl
    rw [if_neg hl, pure_eq_ok.1 h]

theorem shiftLent?_agrees {scanner : Scanner σ} {step : Step σ (Option (List UInt8))}
    (h : shiftLent? scanner = .ok step) : scanner.shiftLent? = step.outcome := by
  obtain ⟨bytes?, hbytes, h⟩ := bind_eq_ok.1 h
  rw [Scanner.shiftLent?, ← lentBytes?_agrees hbytes]
  split at h
  · rw [← pure_eq_ok.1 h]
    rfl
  · rw [← pure_eq_ok.1 h]
    rfl

theorem free_agrees {scanner : Scanner σ} {n : Nat} {step : Step σ Unit}
    (h : free scanner n = .ok step) (mode : Mode) : scanner.free mode n = step.outcome := by
  simp only [free, bind_eq_ok, require_eq_ok, sum_eq_ok, pure_eq_ok] at h
  obtain ⟨released, hreleased, -, -, consumed, ⟨hlt, rfl⟩, -, hle, rfl⟩ := h
  obtain rfl := release_agrees hreleased
  simp only [Scanner.free, Scanner.consume, Mode.add_of_lt mode hlt,
    if_neg (Mode.not_rejects hle)]
  simp [Outcome.after, Outcome.pure, Step.outcome]

section
variable {scanner : Scanner σ} {delivered : List UInt8}

theorem clear_moveBy {delta : Int} (hmove : scanner.place.Permits (.moveBy delta)) :
    Clear (moveBy scanner delta) := by
  obtain ⟨hsat, hle⟩ := Scanner.moveBy_target hmove
  refine (clear_require ?_).bind fun _ _ => clear_pure _
  rwa [hsat]

theorem clear_shift (hk : scanner.window.Kept) : Clear (shift scanner) :=
  (clear_selection hk).bind fun _ _ => clear_pure _

theorem clear_shiftToken (hk : scanner.window.Kept) (hword : scanner.shiftedTotal < Word.bound) :
    Clear (shiftToken scanner) := by
  refine Clear.bind ⟨_, offset_eq hword⟩ fun n _ => ?_
  exact (clear_shift hk).bind fun _ _ => clear_pure _

theorem clear_lentBytes? (hk : scanner.window.Kept) : Clear (lentBytes? scanner) := by
  rw [lentBytes?]
  split
  · exact (clear_selection hk).bind fun _ _ => clear_pure _
  · exact clear_pure _

theorem clear_shiftLent? (hk : scanner.window.Kept) : Clear (shiftLent? scanner) := by
  refine (clear_lentBytes? hk).bind fun bytes? _ => ?_
  cases bytes? with
  | some bytes => exact clear_pure _
  | none => exact clear_pure _

/-- Freeing no more than is shifted finds nothing: what runs past the pool is freed of
the window, up to the token start. -/
theorem clear_free (h : scanner.Sound delivered) (hp : scanner.window.Placed)
    (hword : scanner.shiftedTotal < Word.bound) {n : Nat}
    (hn : scanner.freedTotal + n ≤ scanner.shiftedTotal) : Clear (free scanner n) := by
  have hspill := h.pool.spill_free n
  have hll := h.linked_le hp
  have hol := h.outstanding_le hp
  have hcl := h.consumed_le
  rw [Scanner.freedTotal, Scanner.shiftedTotal] at hn
  rw [Scanner.shiftedTotal] at hword
  refine (clear_release h.pool (by omega) n).bind fun released hr => ?_
  obtain rfl := release_agrees hr
  have hle : scanner.consumed + (scanner.pool.free n).spill ≤ scanner.start := by omega
  refine (clear_require (h.spill_eq_zero_or n)).bind fun _ _ => ?_
  refine (clear_sum (by omega)).bind fun consumed hc => ?_
  obtain ⟨-, rfl⟩ := sum_eq_ok.1 hc
  exact (clear_require hle).bind fun _ _ => clear_pure _

end

/-! ## Runs -/

variable [Source σ]

/-- Applies one operation. -/
def apply (scanner : Scanner σ) : Op → Tested (Step σ Answer)
  | .peek distance => (peek scanner distance).map (·.map .byte)
  | .peekRune distance =>
    (peekRune scanner distance).map (·.map fun found => .rune found.1 found.2)
  | .moveBy delta => (moveBy scanner delta).map (·.map fun _ => .done)
  | .moveTo n => return { value := .done, scanner := scanner.moveTo n, log := [] }
  | .bytes => (selection scanner).map fun bytes => { value := .bytes bytes, scanner, log := [] }
  | .shift => (shift scanner).map (·.map .bytes)
  | .shiftToken => (shiftToken scanner).map (·.map .token)
  | .skip => return { value := .done, scanner := scanner.skip, log := [] }
  | .free n => (free scanner n).map (·.map fun _ => .done)
  | .lentBytes =>
    (lentBytes? scanner).map fun bytes? => { value := .lent bytes?, scanner, log := [] }
  | .shiftLent => (shiftLent? scanner).map (·.map .lent)

/-- Applies one operation after the other, as long as nothing is found. -/
def run (scanner : Scanner σ) : List Op → Tested (List (Step σ Answer))
  | [] => return []
  | op :: ops => do
    let step ← apply scanner op
    let steps ← run step.scanner ops
    return step :: steps

/-- An operation in which nothing is found does the same in either mode. -/
theorem apply_agrees {scanner : Scanner σ} {op : Op} {step : Step σ Answer}
    (h : apply scanner op = .ok step) (mode : Mode) : scanner.apply mode op = step.outcome := by
  cases op with
  | peek distance =>
    obtain ⟨found, hfound, rfl⟩ := map_eq_ok.1 h
    rw [Scanner.apply, peek_agrees hfound mode, Step.outcome_map]
  | peekRune distance =>
    obtain ⟨found, hfound, rfl⟩ := map_eq_ok.1 h
    rw [Scanner.apply, peekRune_agrees hfound mode, Step.outcome_map]
  | moveBy delta =>
    obtain ⟨moved, hmoved, rfl⟩ := map_eq_ok.1 h
    rw [Scanner.apply, moveBy_agrees hmoved mode, Step.outcome_map]
  | moveTo n =>
    rw [← pure_eq_ok.1 h]
    rfl
  | bytes =>
    obtain ⟨bytes, hbytes, rfl⟩ := map_eq_ok.1 h
    rw [Scanner.apply, (selection_agrees hbytes).2]
    rfl
  | shift =>
    obtain ⟨shifted, hshifted, rfl⟩ := map_eq_ok.1 h
    rw [Scanner.apply, shift_agrees hshifted, Step.outcome_map]
  | shiftToken =>
    obtain ⟨shifted, hshifted, rfl⟩ := map_eq_ok.1 h
    rw [Scanner.apply, shiftToken_agrees hshifted mode, Step.outcome_map]
  | skip =>
    rw [← pure_eq_ok.1 h]
    rfl
  | free n =>
    obtain ⟨freed, hfreed, rfl⟩ := map_eq_ok.1 h
    rw [Scanner.apply, free_agrees hfreed mode, Step.outcome_map]
  | lentBytes =>
    obtain ⟨bytes?, hbytes, rfl⟩ := map_eq_ok.1 h
    rw [lentBytes?_agrees hbytes]
    rfl
  | shiftLent =>
    obtain ⟨shifted, hshifted, rfl⟩ := map_eq_ok.1 h
    rw [Scanner.apply, shiftLent?_agrees hshifted, Step.outcome_map]

/-- A run in which nothing is found consists of the same outcomes in either mode. -/
theorem run_agrees {scanner : Scanner σ} {ops : List Op} {steps : List (Step σ Answer)}
    (h : run scanner ops = .ok steps) (mode : Mode) :
    scanner.run mode ops = steps.map Step.outcome := by
  induction ops generalizing scanner steps with
  | nil =>
    rw [← pure_eq_ok.1 h]
    rfl
  | cons op ops ih =>
    simp only [run, bind_eq_ok, pure_eq_ok] at h
    obtain ⟨step, hstep, steps, hsteps, rfl⟩ := h
    rw [Scanner.run, apply_agrees hstep mode, Step.scanner_outcome, ih hsteps, List.map_cons]

/-- It ends with the same scanner and the same log. -/
theorem after_agrees {scanner : Scanner σ} {ops : List Op} {steps : List (Step σ Answer)}
    (h : run scanner ops = .ok steps) (mode mode' : Mode) :
    scanner.after mode ops = scanner.after mode' ops := by
  induction ops generalizing scanner steps with
  | nil => rfl
  | cons op ops ih =>
    simp only [run, bind_eq_ok, pure_eq_ok] at h
    obtain ⟨step, hstep, steps, hsteps, rfl⟩ := h
    simp only [Scanner.after, apply_agrees hstep mode, apply_agrees hstep mode',
      Step.scanner_outcome, ih hsteps]

/-- A run goes on where it has led to. -/
theorem Clear.concat {scanner : Scanner σ} {ops : List Op} {op : Op} {mode : Mode}
    (h : Clear (run scanner ops)) (hop : Clear (apply (scanner.after mode ops).1 op)) :
    Clear (run scanner (ops ++ [op])) := by
  induction ops generalizing scanner with
  | nil => exact hop.bind fun _ _ => clear_pure _
  | cons first ops ih =>
    obtain ⟨steps, h⟩ := h
    simp only [run, bind_eq_ok, pure_eq_ok] at h
    obtain ⟨step, hstep, steps, hsteps, rfl⟩ := h
    simp only [Scanner.after, apply_agrees hstep mode] at hop
    obtain ⟨later, hlater⟩ := ih ⟨steps, hsteps⟩ hop
    exact ⟨step :: later, by simp only [List.cons_append, run, hstep, hlater, bind_eq_ok,
      Except.ok.injEq, exists_eq_left', pure_eq_ok]⟩

section
variable {scanner : Scanner σ} {delivered : List UInt8} {mode : Mode}

/-- An operation within the contract finds nothing. -/
theorem clear_apply (h : scanner.Sound delivered) (hk : scanner.window.Kept)
    (hf : scanner.status.isActive = true → scanner.Fits)
    (hword : scanner.place.frontier < Word.bound) {op : Op} (hmove : scanner.place.Permits op)
    (hfree : ∀ n, op = .free n → scanner.freedTotal + n ≤ scanner.shiftedTotal)
    (hlook : scanner.InSight mode op) (hlog : Modest (scanner.apply mode op).log) :
    Clear (apply scanner op) := by
  have hshifted : scanner.shiftedTotal < Word.bound := Nat.lt_of_le_of_lt h.shifted_le hword
  cases op with
  | peek distance =>
    exact (clear_peek h hk hf (hlook distance (List.mem_singleton.2 rfl)) hlog).map _
  | peekRune distance => exact (clear_peekRune h hk hf hlook hlog).map _
  | moveBy delta => exact (clear_moveBy hmove).map _
  | moveTo n => exact clear_pure _
  | bytes => exact (clear_selection hk).map _
  | shift => exact (clear_shift hk).map _
  | shiftToken => exact (clear_shiftToken hk hshifted).map _
  | skip => exact clear_pure _
  | free n => exact (clear_free h hk.placed hshifted (hfree n rfl)).map _
  | lentBytes => exact (clear_lentBytes? hk).map _
  | shiftLent => exact (clear_shiftLent? hk).map _

/-- Outside the contract there is something to find. -/
example : run (.ofBytes [1, 2]) [.moveTo 1, .skip, .free 2] =
    .error (.fault (.pastShifted 1)) := by rfl

end

end Lookahead.Strict
