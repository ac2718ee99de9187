import Lookahead.Proofs.Pool.Queue
import Lookahead.Proofs.Strict.Tests

/-!
# Strict pools

The operations of a pool with every test made. The blocks are looked up by index,
lengths are added up and taken apart again, and ranges of a buffer are copied or
removed.

## Main definitions

* `Strict.outstanding`, `Strict.release` and `Strict.swap`.

## Main statements

* `Strict.swap_agrees` and `Strict.release_agrees`: where nothing is found the
  pool does the same without the tests.
* `Strict.clear_outstanding`, `Strict.clear_release` and `Strict.clear_swap`:
  nothing is found in a well-formed pool.
-/
namespace Lookahead.Strict

/-! ## Counting -/

/-- Adds up the lengths of blocks. -/
def totalAlong (pool : Pool) (total : Nat) : List Nat → Tested Nat
  | [] => return total
  | index :: newer => do
    inBounds index pool.blocks.length
    let total ← sum total (pool.lengthAt index)
    totalAlong pool total newer

/-- The number of bytes parked and not yet freed. -/
def outstanding (pool : Pool) : Tested Nat := do
  let total ← totalAlong pool 0 pool.chain
  difference total (min pool.offset total)

theorem totalAlong_eq_ok {pool : Pool} {total result : Nat} {indices : List Nat}
    (h : totalAlong pool total indices = .ok result) :
    result = total + indices.foldr (fun index total => pool.lengthAt index + total) 0 := by
  induction indices generalizing total with
  | nil => exact (pure_eq_ok.1 h).symm
  | cons index newer ih =>
    simp only [totalAlong, bind_eq_ok, inBounds_eq_ok, sum_eq_ok] at h
    obtain ⟨-, -, total, ⟨-, rfl⟩, h⟩ := h
    rw [ih h, List.foldr_cons, Nat.add_assoc]

theorem outstanding_agrees {pool : Pool} {n : Nat} (h : outstanding pool = .ok n) :
    n = pool.outstanding := by
  simp only [outstanding, bind_eq_ok, difference_eq_ok] at h
  obtain ⟨total, htotal, -, rfl⟩ := h
  rw [totalAlong_eq_ok htotal, Nat.zero_add, Pool.outstanding]
  omega

theorem clear_totalAlong {pool : Pool} {total : Nat} {indices : List Nat}
    (hlt : ∀ index ∈ indices, index < pool.blocks.length)
    (hword : total + (indices.flatMap pool.bytesAt).length < Word.bound) :
    Clear (totalAlong pool total indices) := by
  induction indices generalizing total with
  | nil => exact clear_pure total
  | cons index newer ih =>
    rw [List.flatMap_cons, List.length_append] at hword
    refine (clear_inBounds (hlt index (by simp))).bind fun _ _ => ?_
    refine (clear_sum ?_).bind fun later hl => ?_
    · rw [Pool.lengthAt]
      omega
    · obtain ⟨-, rfl⟩ := sum_eq_ok.1 hl
      refine ih (fun i hi => hlt i (by simp [hi])) ?_
      rw [Pool.lengthAt]
      omega

/-- Counting finds nothing as long as the linked bytes are fewer than the words. -/
theorem clear_outstanding {pool : Pool} (h : pool.Sound)
    (hword : pool.linkedBytes.length < Word.bound) : Clear (outstanding pool) := by
  refine (clear_totalAlong h.leads.lt_length ?_).bind fun total _ => ?_
  · rwa [Nat.zero_add]
  · exact clear_difference (Nat.min_le_right ..)

/-! ## Freeing -/

/-- Frees `n` bytes of the blocks listed, which are those of the chain. -/
def releaseAlong (pool : Pool) (n : Nat) : List Nat → Tested Pool.Release
  | [] => return { spill := n, pool := { pool with head := none } }
  | index :: newer => do
    inBounds index pool.blocks.length
    let left ← difference (pool.lengthAt index) pool.offset
    if n < left then
      let offset ← sum pool.offset n
      return { spill := 0, pool := { pool with offset } }
    else
      let n ← difference n left
      let later ← releaseAlong (pool.retire index) n newer
      return { later with log := .drained index (pool.lengthAt index) :: later.log }

/-- Frees `n` bytes, oldest first. -/
def release (pool : Pool) (n : Nat) : Tested Pool.Release := releaseAlong pool n pool.chain

theorem releaseAlong_agrees {pool : Pool} {n : Nat} {indices : List Nat} {released : Pool.Release}
    (h : releaseAlong pool n indices = .ok released) : released = pool.freeAlong n indices := by
  induction indices generalizing pool n released with
  | nil => exact (pure_eq_ok.1 h).symm
  | cons index newer ih =>
    simp only [releaseAlong, bind_eq_ok, inBounds_eq_ok, difference_eq_ok] at h
    obtain ⟨-, -, left, ⟨-, rfl⟩, h⟩ := h
    rw [Pool.freeAlong]
    split at h
    · rename_i hlt
      simp only [bind_eq_ok, sum_eq_ok, pure_eq_ok] at h
      obtain ⟨offset, ⟨-, rfl⟩, rfl⟩ := h
      rw [if_pos hlt]
    · rename_i hge
      simp only [bind_eq_ok, difference_eq_ok, pure_eq_ok] at h
      obtain ⟨rest, ⟨-, rfl⟩, later, hlater, rfl⟩ := h
      rw [if_neg hge, ih hlater]

theorem release_agrees {pool : Pool} {n : Nat} {released : Pool.Release}
    (h : release pool n = .ok released) : released = pool.free n := releaseAlong_agrees h

theorem clear_releaseAlong {pool : Pool} {indices : List Nat} (h : pool.Linked indices)
    (hword : ∀ index ∈ indices, pool.lengthAt index < Word.bound) (n : Nat) :
    Clear (releaseAlong pool n indices) := by
  induction indices generalizing pool n with
  | nil => exact clear_pure _
  | cons index newer ih =>
    have hlt : pool.offset < pool.lengthAt index := h.offset_lt index (by simp)
    have hmax := hword index (by simp)
    refine (clear_inBounds (h.leads.lt_length index (by simp))).bind fun _ _ => ?_
    refine (clear_difference (Nat.le_of_lt hlt)).bind fun left hl => ?_
    obtain ⟨-, rfl⟩ := difference_eq_ok.1 hl
    by_cases hn : n < pool.lengthAt index - pool.offset
    · rw [if_pos hn]
      exact (clear_sum (by omega)).bind fun _ _ => clear_pure _
    · rw [if_neg hn]
      refine (clear_difference (Nat.le_of_not_lt hn)).bind fun rest _ => ?_
      refine (ih h.retire (fun i hi => ?_) rest).bind fun _ _ => clear_pure _
      simpa using hword i (by simp [hi])

/-- Freeing finds nothing, however much is freed. -/
theorem clear_release {pool : Pool} (h : pool.Sound) (hword : pool.linkedBytes.length < Word.bound)
    (n : Nat) : Clear (release pool n) := by
  refine clear_releaseAlong h.toLinked (fun index hi => ?_) n
  refine Nat.lt_of_le_of_lt (List.Sublist.length_le ?_) hword
  exact List.sublist_flatten_of_mem (List.mem_map_of_mem hi)

/-! ## Swapping -/

/-- What a swap that finds nothing leads to. -/
structure Swapped where
  buffer : Buffer
  pool : Pool
  log : List Event

/-- Links a stored block as the newest of the chain, if it holds bytes that are not
freed. -/
def settle (pool : Pool) (index freed outstanding : Nat) : Tested Pool :=
  if 0 < outstanding then do
    if let some head := pool.head then inBounds head pool.blocks.length
    return pool.link index freed
  else
    return pool

/-- Exchanges a buffer for one of at least `size` bytes. -/
def swap (pool : Pool) (old : Buffer) (retain freed size : Nat) : Tested Swapped := do
  require (freed ≤ retain ∧ retain ≤ old.length) (.fault .misplacedRetention)
  require (freed = 0 ∨ pool.isDrained = true) (.fault .freedBeforeDrained)
  let outstanding ← difference retain freed
  if outstanding = 0 ∧ size ≤ old.capacity then
    range 0 retain old.length
    return { buffer := old.drop retain, pool, log := [] }
  else
    let block : Block := { buffer := old.take retain, active := 0 < outstanding }
    match pool.reusable? size with
    | some index =>
      inBounds index pool.blocks.length
      range retain old.length old.length
      let pool' ← settle (pool.replace index block) index freed outstanding
      return {
        buffer := ⟨old.bytes.drop retain, pool.capacityAt index⟩
        pool := pool'
        log := [.reusing index (pool.capacityAt index)] }
    | none =>
      let allocations ← sum pool.allocations 1
      require (size ≤ Word.maxAllocation) (.fault .capacityOverflow)
      range retain old.length old.length
      let stored : Pool := { pool with allocations, blocks := pool.blocks ++ [block] }
      let index ← difference stored.blocks.length 1
      let pool' ← settle stored index freed outstanding
      return {
        buffer := ⟨old.bytes.drop retain, size⟩
        pool := pool'
        log := [.allocating size pool.blocks.length] }

theorem settle_agrees {pool pool' : Pool} {index freed outstanding : Nat}
    (h : settle pool index freed outstanding = .ok pool') :
    pool' = if 0 < outstanding then pool.link index freed else pool := by
  rw [settle] at h
  split at h
  · rename_i hpos
    rw [if_pos hpos]
    cases hh : pool.head with
    | none =>
      simp only [hh, pure_eq_ok] at h
      exact h.symm
    | some head =>
      simp only [hh, bind_eq_ok, pure_eq_ok] at h
      obtain ⟨-, -, rfl⟩ := h
      rfl
  · rename_i hz
    rw [if_neg hz]
    exact (pure_eq_ok.1 h).symm

/-- A swap in which nothing is found leads in both modes to the same exchange. -/
theorem swap_agrees {pool : Pool} {old : Buffer} {retain freed size : Nat} {swapped : Swapped}
    (h : swap pool old retain freed size = .ok swapped) (mode : Mode) :
    pool.swap mode old retain freed size = ⟨.ok swapped.buffer, swapped.pool, swapped.log⟩ := by
  simp only [swap, bind_eq_ok, require_eq_ok, difference_eq_ok] at h
  obtain ⟨-, hrange, -, hdrained, left, ⟨-, rfl⟩, h⟩ := h
  have hslide : (retain - freed = 0 ∧ size ≤ old.capacity) =
      (retain ≤ freed ∧ size ≤ old.capacity) := by rw [Nat.sub_eq_zero_iff_le]
  have hpos : (0 < retain - freed) = (freed < retain) := propext Nat.sub_pos_iff_lt
  simp only [hslide, hpos] at h
  rw [Pool.swap, if_neg (Mode.not_rejects hrange), if_neg (Mode.not_rejects hdrained),
    Pool.exchange]
  by_cases hs : retain ≤ freed ∧ size ≤ old.capacity
  · rw [if_pos hs] at h ⊢
    simp only [bind_eq_ok, pure_eq_ok] at h
    obtain ⟨-, -, rfl⟩ := h
    rfl
  · rw [if_neg hs] at h ⊢
    cases hr : pool.reusable? size with
    | some index =>
      simp only [hr, bind_eq_ok, pure_eq_ok] at h
      obtain ⟨-, -, -, -, pool', hpool, rfl⟩ := h
      simp only [settle_agrees hpool, hpos]
    | none =>
      simp only [hr, bind_eq_ok, sum_eq_ok, require_eq_ok, difference_eq_ok, pure_eq_ok] at h
      obtain ⟨count, ⟨-, rfl⟩, -, hsize, -, -, index, ⟨-, rfl⟩, pool', hpool, rfl⟩ := h
      simp only [List.length_append, List.length_singleton, Nat.add_sub_cancel] at hpool
      simp only [if_pos hsize, settle_agrees hpool, hpos]
      rfl

theorem clear_settle {pool stored : Pool} (h : pool.Sound) (hhead : stored.head = pool.head)
    (hlen : pool.blocks.length ≤ stored.blocks.length) (index freed outstanding : Nat) :
    Clear (settle stored index freed outstanding) := by
  rw [settle]
  split
  · cases hh : pool.head with
    | none =>
      rw [hhead, hh]
      exact (clear_pure _).bind fun _ _ => clear_pure _
    | some head =>
      rw [hhead, hh]
      have hlt := h.leads.lt_length head (h.mem_of_head hh)
      exact (clear_inBounds (Nat.lt_of_lt_of_le hlt hlen)).bind fun _ _ => clear_pure _
  · exact clear_pure _

/-- A swap that keeps the contract finds nothing, if the buffer asked for can be
allocated and the count of allocations is a word. -/
theorem clear_swap {pool : Pool} (h : pool.Sound) {old : Buffer} {retain freed size : Nat}
    (hrange : freed ≤ retain ∧ retain ≤ old.length)
    (hdrained : freed = 0 ∨ pool.isDrained = true) (hsize : size ≤ Word.maxAllocation)
    (hcount : pool.allocations + 1 < Word.bound) : Clear (swap pool old retain freed size) := by
  refine (clear_require hrange).bind fun _ _ => (clear_require hdrained).bind fun _ _ => ?_
  refine (clear_difference hrange.1).bind fun left _ => ?_
  split
  · exact (clear_range ⟨Nat.zero_le _, hrange.2⟩).bind fun _ _ => clear_pure _
  · cases hr : pool.reusable? size with
    | some index =>
      have hlt : index < pool.blocks.length := (List.findIdx?_eq_some_iff_getElem.1 hr).1
      refine (clear_inBounds hlt).bind fun _ _ => ?_
      refine (clear_range ⟨hrange.2, Nat.le_refl _⟩).bind fun _ _ => ?_
      refine Clear.bind ?_ fun _ _ => clear_pure _
      refine clear_settle h ?_ ?_ ..
      · rfl
      · simp [Pool.replace]
    | none =>
      refine (clear_sum hcount).bind fun _ _ => (clear_require hsize).bind fun _ _ => ?_
      refine (clear_range ⟨hrange.2, Nat.le_refl _⟩).bind fun _ _ => ?_
      refine (clear_difference ?_).bind fun _ _ => ?_
      · simp
      · refine Clear.bind ?_ fun _ _ => clear_pure _
        refine clear_settle h ?_ ?_ ..
        · rfl
        · simp

end Lookahead.Strict
