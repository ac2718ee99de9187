import Lookahead.Proofs.Scanner.Storage
import Lookahead.Proofs.Strict.Pool

/-!
# Filling the window strictly

The window is refilled, moved on and grown with every test made. Positions are
indices into the window, so the index that is wanted is computed anew in every
pass: a move of the window makes it smaller.

## Main definitions

* `Strict.Step`: what an operation leads to in which nothing is found.
* `Strict.relocate`, `Strict.draw` and `Strict.refill`.

## Main statements

* `Strict.refill_agrees`: where nothing is found, the scanner does the same in
  either mode.
* `Strict.clear_refill`: nothing is found in a sound scanner whose storage is within
  bounds, as long as that is so for the window that follows.
-/
namespace Lookahead.Strict

variable {σ : Type}

/-- What an operation leads to in which nothing is found. -/
structure Step (σ α : Type) where
  value : α
  scanner : Scanner σ
  log : List Event

namespace Step
variable {α β : Type}

/-- The same as an outcome. -/
def outcome (step : Step σ α) : Outcome σ α := ⟨.ok step.value, step.scanner, step.log⟩

/-- The same with earlier events in front. -/
def after (step : Step σ α) (log : List Event) : Step σ α := { step with log := log ++ step.log }

/-- The same with another form of the value. -/
def map (f : α → β) (step : Step σ α) : Step σ β := ⟨f step.value, step.scanner, step.log⟩

@[simp] theorem result_outcome (step : Step σ α) : step.outcome.result = .ok step.value := rfl
@[simp] theorem scanner_outcome (step : Step σ α) : step.outcome.scanner = step.scanner := rfl
@[simp] theorem log_outcome (step : Step σ α) : step.outcome.log = step.log := rfl

@[simp] theorem outcome_after (step : Step σ α) (log : List Event) :
    (step.after log).outcome = step.outcome.after log := rfl

@[simp] theorem outcome_map (f : α → β) (step : Step σ α) :
    (step.map f).outcome = step.outcome.map f := rfl

end Step

/-! ## Moving the window -/

/-- The size of the window that follows, before any limit is looked at. -/
def growth (size residual : Nat) : Tested Nat := do
  let double ← product 2 residual
  if double > size then
    let double ← product 2 size
    sum double residual
  else
    return size

/-- Moves the window on by `retain` bytes into one of the given size. The base is kept
as a word, so the sum that leads to the next one is tested. -/
def advance (scanner : Scanner σ) (retain residual size : Nat) : Tested (Step σ Unit) := do
  let parked ← outstanding scanner.pool
  let freed := min scanner.consumed retain
  let swapped ← swap scanner.pool scanner.window.buffer retain freed size
  let _ ← sum scanner.window.base retain
  let start ← difference scanner.start retain
  let frontier ← difference scanner.frontier retain
  let consumed ← difference scanner.consumed freed
  return {
    value := ()
    scanner := { scanner with
      pool := swapped.pool
      window := scanner.window.advance retain swapped.buffer size
      consumed, start, frontier }
    log := .relocating residual scanner.window.size size parked :: swapped.log }

/-- Moves the window on to make room for the byte at an index, or ends the source if
there is none to be had. -/
def relocate (scanner : Scanner σ) (index : Nat) : Tested (Step σ Unit) := do
  let retain := scanner.retained
  let residual ← difference scanner.window.filled retain
  let size ← growth scanner.window.size residual
  match scanner.limit? with
  | none => advance scanner retain residual size
  | some limit =>
    if min size limit ≤ residual then
      let beyond ← difference index retain
      let requested := Word.saturate (beyond + 1)
      return {
        value := ()
        scanner := { scanner with
          status := scanner.status.finish (some (.limitExceeded requested limit)) }
        log := [.refused requested limit] }
    else
      advance scanner retain residual (min size limit)

theorem growth_agrees {size residual n : Nat} (h : growth size residual = .ok n) :
    n = Window.growth size residual := by
  simp only [growth, bind_eq_ok, product_eq_ok] at h
  obtain ⟨double, ⟨-, rfl⟩, h⟩ := h
  rw [Window.growth]
  split at h
  · rename_i hgt
    simp only [bind_eq_ok, product_eq_ok, sum_eq_ok] at h
    obtain ⟨double, ⟨-, rfl⟩, -, rfl⟩ := h
    rw [if_pos hgt]
  · rename_i hle
    rw [if_neg hle, pure_eq_ok.1 h]

theorem advance_agrees {scanner : Scanner σ} {size : Nat} {step : Step σ Unit}
    (h : advance scanner scanner.retained scanner.residual size = .ok step)
    (hn : scanner.nextSize scanner.residual = .ok size) (mode : Mode) (target : Nat) :
    scanner.relocate mode target = step.outcome := by
  simp only [advance, bind_eq_ok, sum_eq_ok, difference_eq_ok, pure_eq_ok] at h
  obtain ⟨parked, hparked, swapped, hswap, base, ⟨hbase, -⟩, start, ⟨-, rfl⟩, frontier, ⟨-, rfl⟩,
    consumed, ⟨-, rfl⟩, rfl⟩ := h
  simp only [Scanner.relocate, hn, swap_agrees hswap mode, outstanding_agrees hparked,
    Mode.add_of_lt mode hbase]
  rfl

/-- A move in which nothing is found is the same move in either mode. -/
theorem relocate_agrees {scanner : Scanner σ} {index : Nat} {step : Step σ Unit}
    (h : relocate scanner index = .ok step) (mode : Mode) :
    scanner.relocate mode (scanner.window.origin + index) = step.outcome := by
  simp only [relocate, bind_eq_ok, difference_eq_ok] at h
  obtain ⟨residual, ⟨-, hresidual⟩, size, hsize, h⟩ := h
  obtain rfl : scanner.residual = residual := hresidual
  obtain rfl := growth_agrees hsize
  split at h
  · rename_i hl
    exact advance_agrees h (by simp only [Scanner.nextSize, hl]) mode _
  · rename_i limit hl
    split at h
    · rename_i hle
      simp only [bind_eq_ok, difference_eq_ok, pure_eq_ok] at h
      obtain ⟨beyond, ⟨-, rfl⟩, rfl⟩ := h
      have hn : scanner.nextSize scanner.residual = .error limit := by
        simp only [Scanner.nextSize, hl, if_pos hle]
      simp only [Scanner.relocate, hn, Scanner.refuse, Nat.add_sub_add_left]
      rfl
    · rename_i hgt
      exact advance_agrees h (by simp only [Scanner.nextSize, hl, if_neg hgt]) mode _

/-- A move in which nothing is found leaves the frontier where it is in the stream. -/
theorem frontierOffset_relocate {scanner : Scanner σ} {index : Nat} {step : Step σ Unit}
    (h : relocate scanner index = .ok step) :
    step.scanner.frontierOffset = scanner.frontierOffset := by
  simp only [relocate, bind_eq_ok, difference_eq_ok] at h
  obtain ⟨residual, -, size, -, h⟩ := h
  have hadvance {retain size : Nat} (h : advance scanner retain residual size = .ok step) :
      step.scanner.frontierOffset = scanner.frontierOffset := by
    simp only [advance, bind_eq_ok, sum_eq_ok, difference_eq_ok, pure_eq_ok] at h
    obtain ⟨-, -, swapped, -, base, -, start, -, frontier, ⟨hle, rfl⟩, consumed, -, rfl⟩ := h
    simp only [Scanner.frontierOffset, Window.advance]
    omega
  split at h
  · exact hadvance h
  · split at h
    · simp only [bind_eq_ok, difference_eq_ok, pure_eq_ok] at h
      obtain ⟨beyond, -, rfl⟩ := h
      rfl
    · exact hadvance h

section
variable {scanner : Scanner σ} {delivered : List UInt8} {mode : Mode} {index : Nat}

theorem clear_growth {size residual : Nat} (hr : residual ≤ size)
    (hmax : Window.growth size residual ≤ Word.maxAllocation) : Clear (growth size residual) := by
  have hle := Window.le_growth size residual
  have hword : 2 * Word.maxAllocation < Word.bound := by decide
  refine (clear_product (by omega)).bind fun double hd => ?_
  obtain ⟨-, rfl⟩ := product_eq_ok.1 hd
  rw [Window.growth] at hmax
  split
  · rename_i hgt
    rw [if_pos hgt] at hmax
    refine (clear_product (by omega)).bind fun double hd => ?_
    obtain ⟨-, rfl⟩ := product_eq_ok.1 hd
    exact clear_sum (by omega)
  · exact clear_pure size

/-- Moving on finds nothing if the window that follows can be allocated. The window is
full, so the positions it covers or has left behind are all before its end. -/
theorem clear_advance (h : scanner.Sound delivered) (hk : scanner.window.Kept)
    (hf : scanner.Fits) (hfull : scanner.window.spare = [])
    (hstop : scanner.window.stop < Word.bound) {size : Nat} (hsize : size ≤ Word.maxAllocation) :
    Clear (advance scanner scanner.retained scanner.residual size) := by
  have hretained : scanner.retained ≤ scanner.window.buffer.length := scanner.retained_le_filled
  have hrs : scanner.retained ≤ scanner.start := Nat.min_le_left ..
  have hsl := h.start_le
  have hll := h.linked_le hk.placed
  have hcount := hf.count_lt
  have hwindow : scanner.window.size = scanner.window.buffer.length := by
    rw [hk.size_eq, hfull]
    rfl
  have hbase : scanner.window.base ≤ scanner.window.origin := Word.wrap_le _
  have hstop' : scanner.window.origin + scanner.window.buffer.length < Word.bound := hstop
  refine (clear_outstanding h.pool (by omega)).bind fun parked _ => ?_
  refine (clear_swap h.pool ⟨Nat.min_le_right .., hretained⟩ (h.freed_eq_zero_or hk.placed) hsize
    (by omega)).bind fun swapped _ => ?_
  refine (clear_sum (by omega)).bind fun base _ => ?_
  refine (clear_difference hrs).bind fun start _ => ?_
  refine (clear_difference (Nat.le_trans hrs hsl)).bind fun frontier _ => ?_
  exact (clear_difference (Nat.min_le_left ..)).bind fun consumed _ => clear_pure _

theorem clear_relocate (h : scanner.Sound delivered) (hk : scanner.window.Kept)
    (hf : scanner.Fits) (ha : scanner.status.isActive = true) (hfull : scanner.window.spare = [])
    (hindex : scanner.window.filled ≤ index) (hword : scanner.window.origin + index < Word.bound)
    (hlog : Modest (scanner.relocate mode (scanner.window.origin + index)).log) :
    Clear (relocate scanner index) := by
  have hgrowth := h.growth_le hk ha hlog
  have hretained := scanner.retained_le_filled
  have hstop : scanner.window.stop < Word.bound := by
    rw [Window.stop]
    omega
  refine (clear_difference hretained).bind fun residual hr => ?_
  obtain ⟨-, hr⟩ := difference_eq_ok.1 hr
  obtain rfl : scanner.residual = residual := hr
  refine (clear_growth (Scanner.residual_le_size hk) hgrowth).bind fun size hs => ?_
  obtain rfl := growth_agrees hs
  split
  · exact clear_advance h hk hf hfull hstop hgrowth
  · split
    · exact (clear_difference (Nat.le_trans hretained hindex)).bind fun _ _ => clear_pure _
    · exact clear_advance h hk hf hfull hstop (Nat.le_trans (Nat.min_le_left ..) hgrowth)

end

/-! ## Reading -/

variable [Source σ]

/-- Reads once into the spare room. -/
def draw (scanner : Scanner σ) : Tested (Step σ Unit) := do
  let filled := scanner.window.filled
  range filled scanner.window.size scanner.window.size
  let pulled := Source.pull scanner.source scanner.window.spare
  let calls := pulled.calls.map Event.read
  match pulled.reply.count with
  | .ok n =>
    let buffered ← sum filled n
    let window := scanner.window.accept pulled.reply.room n
    if n = 0 then
      let stop ← sum scanner.window.base filled
      return {
        value := ()
        scanner := { scanner with
          source := pulled.source, window, status := scanner.status.finish none }
        log := calls ++ [.refilled n buffered, .exhausted stop scanner.pool.allocations] }
    else
      return {
        value := ()
        scanner := { scanner with source := pulled.source, window }
        log := calls ++ [.refilled n buffered] }
  | .error error =>
    return {
      value := ()
      scanner := { scanner with
        source := pulled.source
        window := scanner.window.overwrite pulled.reply.room
        status := scanner.status.finish (some (.source error)) }
      log := calls ++ [.failed error] }

/-- Reads once, after moving the window on if it is full. -/
def refill (scanner : Scanner σ) (index : Nat) : Tested (Step σ Unit) := do
  range scanner.window.filled scanner.window.size scanner.window.size
  if scanner.window.spare = [] then
    let moved ← relocate scanner index
    if moved.scanner.status.isActive then
      let step ← draw moved.scanner
      return step.after moved.log
    else
      return moved
  else
    draw scanner

/-- What `Strict.refill` does behind its first test. -/
theorem refill_eq_ok {scanner : Scanner σ} {index : Nat} {step : Step σ Unit} :
    refill scanner index = .ok step ↔ scanner.window.filled ≤ scanner.window.size ∧
      (if scanner.window.spare = [] then do
        let moved ← relocate scanner index
        if moved.scanner.status.isActive then
          let step ← draw moved.scanner
          return step.after moved.log
        else
          return moved
      else draw scanner) = .ok step := by
  simp only [refill, bind_eq_ok, range, require_eq_ok, exists_const, Nat.le_refl, and_true]

theorem draw_agrees {scanner : Scanner σ} {step : Step σ Unit} (h : draw scanner = .ok step) :
    scanner.draw = step.outcome := by
  simp only [draw, bind_eq_ok] at h
  obtain ⟨-, -, h⟩ := h
  have hroom := Source.pull_length_room scanner.source scanner.window.spare
  split at h
  · rename_i n hn
    have hle := Source.pull_count_le hn
    have hfilled : (scanner.window.accept
        (Source.pull scanner.source scanner.window.spare).reply.room n).filled =
        scanner.window.filled + n := by
      simp only [Window.accept, Window.filled, Buffer.length_append, List.length_take]
      omega
    simp only [bind_eq_ok, sum_eq_ok] at h
    obtain ⟨buffered, ⟨-, rfl⟩, h⟩ := h
    simp only [Scanner.draw, hn, hfilled]
    split at h
    · rename_i hz
      simp only [bind_eq_ok, sum_eq_ok, pure_eq_ok] at h
      obtain ⟨stop, ⟨hword, rfl⟩, rfl⟩ := h
      have hstop : Word.wrap (scanner.window.accept
          (Source.pull scanner.source scanner.window.spare).reply.room n).stop =
          scanner.window.base + scanner.window.filled := by
        rw [← Word.wrap_of_lt hword, Window.base, Word.wrap_wrap_add, Window.stop, hfilled, hz]
        rfl
      rw [if_pos hz, hstop]
      rfl
    · rename_i hz
      rw [if_neg hz, ← pure_eq_ok.1 h]
      rfl
  · rename_i error he
    rw [← pure_eq_ok.1 h]
    simp only [Scanner.draw, he]
    rfl

/-- A pass in which nothing is found is the same pass in either mode. -/
theorem refill_agrees {scanner : Scanner σ} {index : Nat} {step : Step σ Unit}
    (h : refill scanner index = .ok step) (mode : Mode) :
    scanner.refill mode (scanner.window.origin + index) = step.outcome := by
  obtain ⟨hroom, h⟩ := refill_eq_ok.1 h
  rw [Scanner.refill, if_neg (Nat.not_lt.2 hroom)]
  split at h
  · rename_i hs
    rw [if_pos hs]
    obtain ⟨moved, hmoved, h⟩ := bind_eq_ok.1 h
    rw [relocate_agrees hmoved mode, Outcome.bind_of_ok moved.result_outcome,
      Step.scanner_outcome]
    split at h
    · rename_i ha
      obtain ⟨drawn, hdrawn, hstep⟩ := bind_eq_ok.1 h
      rw [if_pos ha, draw_agrees hdrawn, ← pure_eq_ok.1 hstep]
      rfl
    · rename_i ha
      rw [if_neg ha, ← pure_eq_ok.1 h]
      simp [Outcome.after, Outcome.pure, Step.outcome]
  · rename_i hs
    rw [if_neg hs]
    exact draw_agrees h

theorem frontierOffset_draw (scanner : Scanner σ) :
    scanner.draw.scanner.frontierOffset = scanner.frontierOffset := by
  obtain ⟨source, status, bytes, room, hs, -, -, -⟩ := scanner.draw_cases
  rw [hs]
  rfl

theorem frontierOffset_refill {scanner : Scanner σ} {index : Nat} {step : Step σ Unit}
    (h : refill scanner index = .ok step) :
    step.scanner.frontierOffset = scanner.frontierOffset := by
  obtain ⟨-, h⟩ := refill_eq_ok.1 h
  split at h
  · obtain ⟨moved, hmoved, h⟩ := bind_eq_ok.1 h
    have hm := frontierOffset_relocate hmoved
    split at h
    · obtain ⟨drawn, hdrawn, hstep⟩ := bind_eq_ok.1 h
      have hd := frontierOffset_draw moved.scanner
      rw [draw_agrees hdrawn] at hd
      rw [← pure_eq_ok.1 hstep]
      exact hd.trans hm
    · rw [← pure_eq_ok.1 h]
      exact hm
  · have hd := frontierOffset_draw scanner
    rwa [draw_agrees h] at hd

section
variable {scanner : Scanner σ} {delivered : List UInt8} {mode : Mode} {index : Nat}

/-- Reading finds nothing as long as the window can be allocated and its end is a
word. -/
theorem clear_draw (hk : scanner.window.Kept) (hsize : scanner.window.size ≤ Word.maxAllocation)
    (hstop : scanner.window.stop < Word.bound) : Clear (draw scanner) := by
  have hwindow := hk.size_eq
  have hbase : scanner.window.base ≤ scanner.window.origin := Word.wrap_le _
  have hend : scanner.window.base + scanner.window.filled < Word.bound :=
    Nat.lt_of_le_of_lt (Nat.add_le_add_right hbase _) hstop
  have hword : Word.maxAllocation < Word.bound := by decide
  refine (clear_range ⟨by omega, Nat.le_refl _⟩).bind fun _ _ => ?_
  dsimp only
  split
  · rename_i n hn
    have hle := Source.pull_count_le hn
    refine (clear_sum (by omega)).bind fun _ _ => ?_
    split
    · exact (clear_sum hend).bind fun _ _ => clear_pure _
    · exact clear_pure _
  · exact clear_pure _

/-- A pass finds nothing if the byte that is wanted is not buffered yet and lies within
the range of words. -/
theorem clear_refill (h : scanner.Sound delivered) (hk : scanner.window.Kept) (hf : scanner.Fits)
    (ha : scanner.status.isActive = true) (hindex : scanner.window.filled ≤ index)
    (hword : scanner.window.origin + index < Word.bound)
    (hlog : Modest (scanner.refill mode (scanner.window.origin + index)).log) :
    Clear (refill scanner index) := by
  have hstop : scanner.window.stop < Word.bound := by
    rw [Window.stop]
    omega
  rw [Scanner.refill_of_kept hk] at hlog
  refine (clear_range ⟨hk.filled_le, Nat.le_refl _⟩).bind fun _ _ => ?_
  by_cases hs : scanner.window.spare = []
  · rw [if_pos hs] at hlog ⊢
    have hmove := hlog.mono (Outcome.log_subset_bind ..)
    refine (clear_relocate h hk hf ha hs hindex hword hmove).bind fun moved hmoved => ?_
    have hagrees := relocate_agrees hmoved mode
    split
    · rename_i hm
      have hok : (scanner.relocate mode (scanner.window.origin + index)).result = .ok () := by
        rw [hagrees]
        rfl
      have hfits : moved.scanner.Fits := by
        have hr := hf.relocate h hk ha hok hmove
        rw [hagrees] at hr
        exact hr hm
      have hkept := Scanner.kept_relocate_of_ok hk hok
      have hend := Scanner.stop_relocate hok
      rw [hagrees] at hkept hend
      exact (clear_draw hkept hfits.size_le (hend ▸ hstop)).bind fun _ _ => clear_pure _
    · exact clear_pure _
  · rw [if_neg hs]
    exact clear_draw hk hf.size_le hstop

end

end Lookahead.Strict
