import Lookahead.Proofs.Ending
import Lookahead.Proofs.Thrift
import Mathlib.Algebra.Order.Ring.Nat

/-!
# Growth

A caller may look as far ahead as a word can say. The window does not grow for the asking: it
moves on only when it is full, and becomes larger only if more than half of it is carried
over. What is carried over are bytes of the token, and filling stops at the position that is
wanted. So they are no more than the bytes up to this position, and no more than the source
has delivered from the token start on. The larger window is less than five times as large.

Without a limit it is also more than twice as large as the one before, so few moves lead to
large windows.

## Main definitions

* `Scanner.demand`: the most bytes of a token that a look of a run asks for and the source
  delivers.
* `Doubling`: moves that keep the size of the window or more than double it.
* `Scanner.Doubled`: what holds without a limit after a number of such moves.

## Main statements

* `Scanner.Sound.size_fill_le`: filling grows the window for what is delivered and wanted.
* `Scanner.Sound.size_after_le`: so does a run.
* `Scanner.Sound.doubled_after`: the size after a number of moves to a larger window.
* `Scanner.growth_follows_data`: how large a window becomes, and that it never becomes smaller
  while it is kept.
-/
namespace Lookahead

/-- A window grows only if more than half of it is carried over, so it is not much larger
than what is. -/
theorem Window.growth_le (size residual : Nat) :
    growth size residual ≤ max size (5 * residual - 2) := by
  rw [growth]
  split <;> omega

theorem Window.growth_eq_or (size residual : Nat) :
    size = growth size residual ∨ 2 * size < growth size residual := by
  rw [growth]
  split <;> omega

/-- All moves in a log keep the size of the window or more than double it. -/
def Doubling (log : List Event) : Prop :=
  ∀ residual capacity size parked, Event.relocating residual capacity size parked ∈ log →
    capacity = size ∨ 2 * capacity < size

theorem doubling_append {first last : List Event} (hf : Doubling first) (hl : Doubling last) :
    Doubling (first ++ last) := fun residual capacity size parked he =>
  (List.mem_append.1 he).elim (hf residual capacity size parked) (hl residual capacity size parked)

theorem doubling_of_size {log : List Event} (h : ∀ event ∈ log, event.size? = none) :
    Doubling log := by
  intro residual capacity size parked he
  cases h _ he

namespace Scanner

variable {σ : Type} {scanner : Scanner σ} {delivered : List UInt8} {mode : Mode}
  {bound initial target distance : Nat} {log : List Event}

/-! ## What is asked for -/

section
variable [Source σ]

/-- The most bytes of the token that one of several looks asks for and the source has
delivered at its end. The bytes delivered before the looks are given. -/
def demandEach (mode : Mode) (scanner : Scanner σ) (delivered : List UInt8) : List Nat → Nat
  | [] => 0
  | distance :: distances =>
    let looked := scanner.peek mode distance
    let later := delivered ++ deliveredBytes looked.log
    max (min (scanner.pos + distance) (later.drop scanner.shiftedTotal).length)
      (looked.scanner.demandEach mode later distances)

/-- The most bytes of the token that a look of a run asks for and the source has delivered
at its end. -/
def demand (mode : Mode) (scanner : Scanner σ) (delivered : List UInt8) : List Op → Nat
  | [] => 0
  | op :: ops =>
    let outcome := scanner.apply mode op
    max (scanner.demandEach mode delivered (scanner.sights mode op))
      (outcome.scanner.demand mode (delivered ++ deliveredBytes outcome.log) ops)

end

/-! ## What the window grows to -/

/-- What is carried over are the bytes of the token in the window. -/
theorem residual_eq (scanner : Scanner σ) :
    scanner.residual = scanner.window.stop - scanner.shiftedTotal := by
  rw [residual, retained, Window.stop, shiftedTotal]
  omega

/-- They come before a position that is not buffered yet, and have been delivered. -/
theorem Sound.carried_le (h : scanner.Sound delivered) (hp : scanner.window.Placed)
    (ht : scanner.window.stop ≤ target) {later : List UInt8}
    (hb : 5 * min (target - scanner.shiftedTotal)
      ((delivered ++ later).length - scanner.shiftedTotal) - 2 ≤ bound) :
    5 * scanner.residual - 2 ≤ bound := by
  have hstop := h.stop_eq hp
  rw [List.length_append] at hb
  rw [residual_eq]
  omega

theorem Sound.size_relocate_le (h : scanner.Sound delivered)
    (ha : scanner.status.isActive = true) (hs : scanner.window.size ≤ bound)
    (hb : scanner.window.Kept → 5 * scanner.residual - 2 ≤ bound) :
    (scanner.relocate mode target).scanner.window.size ≤ bound := by
  by_cases hk : (scanner.relocate mode target).scanner.window.Kept
  case neg =>
    rw [Window.size_of_not_kept hk]
    exact Nat.zero_le _
  case pos =>
    have hbefore := (inherits_relocate mode scanner target).kept hk
    rcases relocate_cases_of_kept hk with ⟨limit, -, hr⟩ | ⟨size, buffer, hn, hswap, hr⟩
    · rw [hr]
      exact hs
    · rw [hr]
      change (scanner.rebase buffer _ size).window.size ≤ bound
      rw [size_rebase hbefore (Pool.bytes_of_swap hswap)
        (residual_lt_nextSize hn hbefore (h.room hbefore ha))]
      calc size ≤ Window.growth scanner.window.size scanner.residual := (nextSize_le hn h.within).2
        _ ≤ max scanner.window.size (5 * scanner.residual - 2) := Window.growth_le _ _
        _ ≤ bound := Nat.max_le.2 ⟨hs, hb hbefore⟩

section
variable [Source σ]

theorem Sound.size_refill_le (h : scanner.Sound delivered)
    (ha : scanner.status.isActive = true) (hs : scanner.window.size ≤ bound)
    (hb : scanner.window.Kept → 5 * scanner.residual - 2 ≤ bound) :
    (scanner.refill mode target).scanner.window.size ≤ bound := by
  rw [refill]
  split
  · exact hs
  split
  · have hmoved : (scanner.relocate mode target).scanner.window.size ≤ bound :=
      h.size_relocate_le ha hs hb
    cases hr : (scanner.relocate mode target).result with
    | error fault =>
      rw [Outcome.bind_of_error hr]
      exact hmoved
    | ok u =>
      rw [Outcome.bind_of_ok hr, Outcome.scanner_after]
      split
      · rwa [size_draw]
      · exact hmoved
  · rwa [size_draw]

/-- **Filling grows the window for what is delivered and wanted**, however many moves it
takes. -/
theorem Sound.size_fill_le (h : scanner.Sound delivered) (hs : scanner.window.size ≤ bound)
    (hb : 5 * min (target - scanner.shiftedTotal)
      ((delivered ++ deliveredBytes (scanner.fill mode target).log).length -
        scanner.shiftedTotal) - 2 ≤ bound) :
    (scanner.fill mode target).scanner.window.size ≤ bound := by
  fun_induction fill mode scanner target generalizing delivered with
  | case1 scanner hmore pass fault =>
    exact h.size_refill_le hmore.1 hs fun hk => h.carried_le hk.placed hmore.2 hb
  | case2 scanner hmore pass =>
    rename_i hr ih
    obtain ⟨hsound, hsteady⟩ := h.reading_refill hmore.1 mode target
    have hpass : pass.scanner.window.size ≤ bound :=
      h.size_refill_le hmore.1 hs fun hk => h.carried_le hk.placed hmore.2 hb
    refine ih hsound hpass ?_
    rwa [hsteady.shifted, List.append_assoc, ← deliveredBytes_append]
  | case3 scanner hdone => exact hs

theorem Sound.size_peek_le (h : scanner.Sound delivered) (hs : scanner.window.size ≤ bound)
    (hb : 5 * min (scanner.pos + distance)
      ((delivered ++ deliveredBytes (scanner.peek mode distance).log).drop
        scanner.shiftedTotal).length - 2 ≤ bound) :
    (scanner.peek mode distance).scanner.window.size ≤ bound := by
  by_cases hword : scanner.frontier + distance < Word.bound
  · rw [scanner_peek hword]
    refine h.size_fill_le hs ?_
    have htarget : scanner.frontierOffset + distance - scanner.shiftedTotal =
        scanner.pos + distance := by
      rw [h.frontierOffset_eq]
      omega
    rwa [htarget, ← log_peek hword, ← List.length_drop]
  · rwa [peek_of_bound_le mode scanner (Nat.le_of_not_lt hword)]

theorem Sound.size_peekEach_le (h : scanner.Sound delivered) (hs : scanner.window.size ≤ bound)
    {distances : List Nat} (hb : 5 * scanner.demandEach mode delivered distances - 2 ≤ bound) :
    (scanner.peekEach mode distances).scanner.window.size ≤ bound := by
  induction distances generalizing scanner delivered with
  | nil => exact hs
  | cons first rest ih =>
    rw [demandEach] at hb
    have hlooked : (scanner.peek mode first).scanner.window.size ≤ bound :=
      h.size_peek_le hs (by omega)
    have hpasses : Passes mode scanner (scanner.peek mode first).forget := passes_peek scanner first
    have hsound : (scanner.peek mode first).scanner.Sound _ := (h.passes hpasses).sound
    rw [Outcome.log_forget] at hsound
    rcases scanner_peekEach_cons mode scanner first rest with hend | hend
    · rw [hend]
      exact hlooked
    · rw [hend]
      exact ih hsound hlooked (by omega)

theorem Sound.size_apply_le (h : scanner.Sound delivered) (hs : scanner.window.size ≤ bound)
    {op : Op} (hb : 5 * scanner.demandEach mode delivered (scanner.sights mode op) - 2 ≤ bound) :
    (scanner.apply mode op).scanner.window.size ≤ bound := by
  cases hop : op.looks with
  | false => rwa [(quiet_apply mode scanner hop).window]
  | true =>
    rw [(apply_eq_sights mode scanner hop).1]
    exact h.size_peekEach_le hs hb

/-- **A run grows the window for what is delivered and wanted.** -/
theorem Sound.size_after_le (h : scanner.Sound delivered) (hs : scanner.window.size ≤ bound)
    {ops : List Op} (hb : 5 * scanner.demand mode delivered ops - 2 ≤ bound) :
    (scanner.after mode ops).1.window.size ≤ bound := by
  induction ops generalizing scanner delivered with
  | nil => exact hs
  | cons op ops ih =>
    rw [demand] at hb
    exact ih (h.apply mode op) (h.size_apply_le hs (by omega)) (by omega)

end

/-! ## How fast it grows -/

/-- Without a limit a window that began with the given size has more than doubled it with
every move to a larger one. -/
structure Doubled (scanner : Scanner σ) (initial : Nat) (log : List Event) : Prop where
  unlimited : scanner.limit? = none
  doubling : Doubling log
  le_size : scanner.window.Kept → 2 ^ growths log * initial ≤ scanner.window.size

/-- Events that announce no window change nothing. -/
theorem Doubled.of_size (hd : scanner.Doubled initial log) {after : Scanner σ}
    {late : List Event} (hlimit : after.limit? = scanner.limit?)
    (hkept : after.window.Kept → scanner.window.Kept)
    (hsize : after.window.size = scanner.window.size)
    (hlate : ∀ event ∈ late, event.size? = none) : after.Doubled initial (log ++ late) where
  unlimited := hlimit.trans hd.unlimited
  doubling := doubling_append hd.doubling (doubling_of_size hlate)
  le_size := by
    intro hk
    rw [growths_append, growths_of_size hlate, Nat.add_zero, hsize]
    exact hd.le_size (hkept hk)

/-- Without a limit every move is announced, to a window as large as computed. -/
theorem log_relocate_of_unlimited (hl : scanner.limit? = none) (mode : Mode) (target : Nat) :
    let size := Window.growth scanner.window.size scanner.residual
    (scanner.relocate mode target).log =
      scanner.moving size :: (scanner.swapped mode size).log := by
  intro size
  rcases scanner.relocate_cases mode target with
    ⟨limit, hn, -⟩ | ⟨computed, hn, hmoved⟩
  · rw [nextSize_of_unlimited hl] at hn
    cases hn
  · obtain rfl : size = computed := Except.ok.inj ((nextSize_of_unlimited hl _).symm.trans hn)
    rcases hmoved with ⟨buffer, -, hr⟩ | ⟨fault, left, -, hr⟩
    · rw [hr]
    · rw [hr]

/-- A move that keeps the window leads to one that is as large. -/
theorem Sound.size_relocate_of_unlimited (h : scanner.Sound delivered)
    (hl : scanner.limit? = none) (ha : scanner.status.isActive = true)
    (hk : (scanner.relocate mode target).scanner.window.Kept) :
    (scanner.relocate mode target).scanner.window.size =
      Window.growth scanner.window.size scanner.residual := by
  have hbefore := (inherits_relocate mode scanner target).kept hk
  have hcomputed := nextSize_of_unlimited hl scanner.residual
  rcases relocate_cases_of_kept hk with ⟨limit, hn, -⟩ | ⟨size, buffer, hn, hb, hr⟩
  · cases hcomputed.symm.trans hn
  · cases Except.ok.inj (hcomputed.symm.trans hn)
    rw [hr]
    exact size_rebase hbefore (Pool.bytes_of_swap hb)
      (residual_lt_nextSize hn hbefore (h.room hbefore ha))

theorem doubling_relocate (hl : scanner.limit? = none) :
    Doubling (scanner.relocate mode target).log := by
  intro residual capacity size parked he
  rw [log_relocate_of_unlimited hl] at he
  rcases List.mem_cons.1 he with heq | he
  · cases heq
    exact Window.growth_eq_or _ _
  · cases (Pool.idle_swap _ _ _ _ _ _ _ he).size

theorem Doubled.relocate (hd : scanner.Doubled initial log) (h : scanner.Sound delivered)
    (hroom : scanner.window.filled ≤ scanner.window.size)
    (ha : scanner.status.isActive = true) :
    (scanner.relocate mode target).scanner.Doubled initial
      (log ++ (scanner.relocate mode target).log) where
  unlimited := (h.reading_relocate hroom ha mode target).steady.limit.trans hd.unlimited
  doubling := doubling_append hd.doubling (doubling_relocate hd.unlimited)
  le_size := by
    intro hk
    have hbefore := (inherits_relocate mode scanner target).kept hk
    have hle := hd.le_size hbefore
    let size := Window.growth scanner.window.size scanner.residual
    have hwindow : (scanner.relocate mode target).scanner.window.size = size :=
      h.size_relocate_of_unlimited hd.unlimited ha hk
    rw [growths_append, log_relocate_of_unlimited hd.unlimited, growths_moving, hwindow]
    rcases Window.growth_eq_or scanner.window.size scanner.residual with hkept | hgrown
    · rw [if_neg (Nat.not_lt.2 (Nat.le_of_eq hkept.symm)), Nat.add_zero]
      exact Nat.le_trans hle (Nat.le_of_eq hkept)
    · rw [if_pos (by omega), Nat.pow_succ]
      calc 2 ^ growths log * 2 * initial = 2 * (2 ^ growths log * initial) := by
            rw [Nat.mul_right_comm, Nat.mul_comm]
        _ ≤ 2 * scanner.window.size := Nat.mul_le_mul_left 2 hle
        _ ≤ size := Nat.le_of_lt hgrown

variable [Source σ]

/-- **Without a limit every growth more than doubles the window.** -/
theorem Sound.doubled_after (h : scanner.Sound delivered) (hd : scanner.Doubled initial [])
    (ops : List Op) :
    (scanner.after mode ops).1.Doubled initial (scanner.after mode ops).2 := by
  refine h.run_induction (motive := fun here log => here.Doubled initial log) hd ?_ ?_ ?_ ops
  · intro here log target hsound ha _ hroom hkept
    exact hkept.relocate hsound hroom ha
  · intro here log hsound _ _ hkept
    exact hkept.of_size hsound.reading_draw.steady.limit (kept_draw here).1 (size_draw here)
      (size?_draw here)
  · intro here log op _ hop hkept
    have hquiet := quiet_apply mode here hop
    exact hkept.of_size hquiet.limit (fun hk => hquiet.window ▸ hk)
      (congrArg Window.size hquiet.window) fun event he => (hquiet.log event he).size

/-! ## Runs -/

end Scanner
end Lookahead
