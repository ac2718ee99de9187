import Lookahead.Proofs.Pool.Chain
import Mathlib.Data.List.Perm.Basic

/-!
# The storage of a pool

Storage is neither made nor lost but by allocations. A swap that slides the token down
or uses a block again trades capacities between the arena and the window, and freeing
takes blocks out of use and leaves them in the arena. A swap allocates only if it cannot
slide and no block that is not in use is large enough; all large ones are in use then.

## Main definitions

* `Pool.capacities`: the capacities of the blocks of the arena.
* `Pool.inUse`: the number of buffers in use, the one of the window included.
* `Pool.Exhausted`: no block that is not in use has a given capacity.
* `Pool.MustAllocate`: a swap can neither slide nor use a block again.

## Main statements

* `Pool.exchange_of_not_mustAllocate`: capacities are traded, or else
* `Pool.MustAllocate.exchange_of_le`: a buffer is allocated.
* `Pool.Exhausted.count_lt_inUse`: then all blocks of its capacity are in use.
* `Pool.allocations_eq_exchange`: there are as many blocks as buffers were asked for.
-/
namespace Lookahead.Pool

/-- The capacities of the blocks of the arena. -/
def capacities (pool : Pool) : List Nat := pool.blocks.map (·.buffer.capacity)

/-- The number of buffers in use: the active blocks, and the one in the window. -/
def inUse (pool : Pool) : Nat := pool.blocks.countP (·.active) + 1

/-- Every block that is not in use is too small. -/
def Exhausted (pool : Pool) (size : Nat) : Prop :=
  ∀ block ∈ pool.blocks, block.active = false → block.buffer.capacity < size

theorem reusable?_eq_none_iff {pool : Pool} {size : Nat} :
    pool.reusable? size = none ↔ pool.Exhausted size := by
  simp [reusable?, Exhausted, List.findIdx?_eq_none_iff]

@[simp] theorem length_capacities (pool : Pool) :
    pool.capacities.length = pool.blocks.length := by simp [capacities]

variable {pool : Pool} {size : Nat}

theorem capacityAt_mem {index : Nat} (h : index < pool.blocks.length) :
    pool.capacityAt index ∈ pool.capacities := by
  rw [capacityAt, List.getElem?_eq_getElem h]
  exact List.mem_map_of_mem (List.getElem_mem h)

/-- In terms of places in the arena. -/
theorem exhausted_iff : pool.Exhausted size ↔
    ∀ index < pool.blocks.length, pool.activeAt index = false → pool.capacityAt index < size := by
  simp only [Exhausted, List.forall_mem_iff_getElem]
  refine forall₂_congr fun index hi => ?_
  simp [activeAt, capacityAt, List.getElem?_eq_getElem hi]

/-- If every block that is not in use is too small, those of the size are in use. -/
theorem Exhausted.count_lt_inUse (h : pool.Exhausted size) :
    pool.capacities.count size < pool.inUse := by
  rw [capacities, List.count, List.countP_map, inUse, Nat.lt_succ_iff]
  refine List.countP_mono_left fun block hm hs => ?_
  have hsize : block.buffer.capacity = size := by simpa using hs
  by_contra hactive
  exact absurd (h block hm (by simpa using hactive)) (by omega)

/-! ## Blocks that change their links or leave the chain -/

/-- A change to one element that a function does not see. -/
theorem map_modify_of_eq {α β : Type} {f : α → β} {change : α → α} (h : ∀ a, f (change a) = f a)
    (elements : List α) (index : Nat) : (elements.modify index change).map f = elements.map f := by
  refine List.ext_getElem? fun i => ?_
  simp only [List.getElem?_map, List.getElem?_modify]
  cases elements[i]? with
  | none => rfl
  | some a => by_cases hi : index = i <;> simp [hi, h]

/-- Linking a block changes links only. -/
theorem map_blocks_link {α : Type} (kind : Block → α)
    (hkind : ∀ block next, kind { block with next } = kind block) (pool : Pool)
    (index freed : Nat) : (pool.link index freed).blocks.map kind = pool.blocks.map kind := by
  cases hh : pool.head with
  | none => simp [link, hh]
  | some head =>
    simp only [link, hh, Option.elim_some]
    exact map_modify_of_eq (fun block => hkind block (some index)) pool.blocks head

@[simp] theorem capacities_link (pool : Pool) (index freed : Nat) :
    (pool.link index freed).capacities = pool.capacities :=
  map_blocks_link _ (fun _ _ => rfl) pool index freed

theorem exhausted_link {index freed : Nat} :
    (pool.link index freed).Exhausted size ↔ pool.Exhausted size := by
  have h := map_blocks_link (fun block => (block.active, block.buffer.capacity))
    (fun _ _ => rfl) pool index freed
  have hforall (pool : Pool) : pool.Exhausted size ↔
      ∀ entry ∈ pool.blocks.map fun block => (block.active, block.buffer.capacity),
        entry.1 = false → entry.2 < size := by
    simp [Exhausted]
  rw [hforall, hforall, h]

/-- Retiring a block changes its link and takes it out of use. -/
theorem map_blocks_retire {α : Type} (kind : Block → α)
    (hkind : ∀ block, kind { block with next := none, active := false } = kind block)
    (pool : Pool) (index : Nat) : (pool.retire index).blocks.map kind = pool.blocks.map kind :=
  map_modify_of_eq hkind pool.blocks index

/-- So does freeing, to the blocks that it retires. -/
theorem map_blocks_freeAlong {α : Type} (kind : Block → α)
    (hkind : ∀ block, kind { block with next := none, active := false } = kind block)
    (pool : Pool) (n : Nat) (indices : List Nat) :
    (pool.freeAlong n indices).pool.blocks.map kind = pool.blocks.map kind := by
  induction indices generalizing pool n with
  | nil => rfl
  | cons index newer ih =>
    rw [freeAlong]
    split
    · rfl
    · rw [← map_blocks_retire kind hkind pool index]
      exact ih ..

/-- Freeing leaves all buffers in the arena. -/
@[simp] theorem capacities_freeAlong (pool : Pool) (n : Nat) (indices : List Nat) :
    (pool.freeAlong n indices).pool.capacities = pool.capacities :=
  map_blocks_freeAlong _ (fun _ => rfl) pool n indices

/-- Freeing adds no block and takes none away. -/
theorem length_blocks_freeAlong (pool : Pool) (n : Nat) (indices : List Nat) :
    (pool.freeAlong n indices).pool.blocks.length = pool.blocks.length := by
  rw [← length_capacities, capacities_freeAlong, length_capacities]

/-- If there are as many blocks as buffers were asked for, there are after freeing. -/
theorem allocations_eq_free (hcount : pool.allocations = pool.blocks.length) (n : Nat) :
    (pool.free n).pool.allocations = (pool.free n).pool.blocks.length := by
  rw [Pool.free, allocations_freeAlong, length_blocks_freeAlong]
  exact hcount

/-! ## Swaps -/

/-- A swap cannot do without an allocation: the token cannot slide down where it is, and
no block that is not in use is large enough. -/
def MustAllocate (pool : Pool) (old : Buffer) (retain freed size : Nat) : Prop :=
  (freed < retain ∨ old.capacity < size) ∧ pool.Exhausted size

section
variable {old : Buffer} {retain freed index : Nat}

/-- The block that a swap leaves behind. -/
def leftover (old : Buffer) (retain freed : Nat) : Block :=
  { buffer := old.take retain, active := freed < retain }

/-- A block that is used again is exchanged for the old buffer. -/
theorem perm_replace (hr : pool.reusable? size = some index) (old : Buffer)
    (retain freed : Nat) :
    size ≤ pool.capacityAt index ∧
      (pool.capacityAt index ::
          (pool.replace index (leftover old retain freed)).capacities).Perm
        (old.capacity :: pool.capacities) := by
  obtain ⟨hlt, hfound, -⟩ := List.findIdx?_eq_some_iff_getElem.1 hr
  constructor
  · simp only [Bool.and_eq_true, decide_eq_true_eq] at hfound
    rw [capacityAt, List.getElem?_eq_getElem hlt]
    exact hfound.2
  · have hcap : pool.capacityAt index = pool.capacities[index]?.getD old.capacity := by
      simp [capacityAt, capacities, List.getElem?_eq_getElem hlt]
    have hset : (pool.replace index (leftover old retain freed)).capacities =
        pool.capacities.set index old.capacity := List.map_set
    rw [hcap, hset]
    exact pool.capacities.getD_set_perm_cons index old.capacity

/-- **Without an allocation capacities are traded** between the arena and the window. -/
theorem exchange_of_not_mustAllocate (h : ¬pool.MustAllocate old retain freed size) :
    ∃ buffer, (pool.exchange old retain freed size).result = .ok buffer ∧
      (pool.exchange old retain freed size).pool.allocations = pool.allocations ∧
      size ≤ buffer.capacity ∧
      (buffer.capacity :: (pool.exchange old retain freed size).pool.capacities).Perm
        (old.capacity :: pool.capacities) := by
  by_cases hs : retain ≤ freed ∧ size ≤ old.capacity
  · rw [exchange, if_pos hs]
    exact ⟨old.drop retain, rfl, rfl, hs.2, .refl _⟩
  · have hneeds : freed < retain ∨ old.capacity < size := by omega
    cases hr : pool.reusable? size with
    | none => exact absurd ⟨hneeds, reusable?_eq_none_iff.1 hr⟩ h
    | some index =>
      obtain ⟨hcap, hperm⟩ := perm_replace hr old retain freed
      simp only [exchange, if_neg hs, hr]
      refine ⟨_, rfl, ?_, hcap, ?_⟩
      · split <;> rfl
      · split
        · rwa [capacities_link]
        · exact hperm

/-- An allocation is counted whether or not the buffer can be made. -/
theorem MustAllocate.exchange_eq (h : pool.MustAllocate old retain freed size) :
    pool.exchange old retain freed size =
      let log := [Event.allocating size pool.blocks.length]
      let pushed := pool.countAllocation.push (leftover old retain freed)
      if size ≤ Word.maxAllocation then
        { result := .ok ⟨old.bytes.drop retain, size⟩
          pool := if freed < retain then pushed.link pool.blocks.length freed else pushed
          log }
      else { result := .error .capacityOverflow, pool := pool.countAllocation, log } := by
  have hs : ¬(retain ≤ freed ∧ size ≤ old.capacity) := by
    have := h.1
    omega
  simp only [exchange, if_neg hs, reusable?_eq_none_iff.2 h.2]
  rfl

theorem MustAllocate.allocations_exchange (h : pool.MustAllocate old retain freed size) :
    (pool.exchange old retain freed size).pool.allocations = pool.allocations + 1 := by
  rw [h.exchange_eq]
  simp only []
  split
  · split <;> rfl
  · rfl

/-- A swap that returns was not asked for too large a buffer. -/
theorem MustAllocate.le_of_ok (h : pool.MustAllocate old retain freed size) {buffer : Buffer}
    (hok : (pool.exchange old retain freed size).result = .ok buffer) :
    size ≤ Word.maxAllocation := by
  by_contra hm
  rw [h.exchange_eq] at hok
  simp only [if_neg hm] at hok
  cases hok

/-- **An allocation is of the size asked for**. The old buffer stays in the arena, and all
blocks as large as the new one are in use. -/
theorem MustAllocate.exchange_of_le (h : pool.MustAllocate old retain freed size)
    (hm : size ≤ Word.maxAllocation) :
    (pool.exchange old retain freed size).result = .ok ⟨old.bytes.drop retain, size⟩ ∧
      (pool.exchange old retain freed size).pool.capacities =
        pool.capacities ++ [old.capacity] ∧
      (pool.exchange old retain freed size).pool.Exhausted size := by
  have hcapacities : (pool.countAllocation.push (leftover old retain freed)).capacities =
      pool.capacities ++ [old.capacity] := List.map_append
  have hpushed : (pool.countAllocation.push (leftover old retain freed)).Exhausted size := by
    refine List.forall_mem_append.2 ⟨h.2, List.forall_mem_singleton.2 fun hidle => ?_⟩
    exact h.1.resolve_left (of_decide_eq_false hidle)
  rw [h.exchange_eq]
  dsimp only
  rw [if_pos hm]
  refine ⟨rfl, ?_⟩
  dsimp only
  split
  · exact ⟨(capacities_link ..).trans hcapacities, exhausted_link.2 hpushed⟩
  · exact ⟨hcapacities, hpushed⟩

/-- A swap that returns asks for as many buffers as it adds blocks. -/
theorem allocations_add_exchange {buffer : Buffer}
    (hok : (pool.exchange old retain freed size).result = .ok buffer) :
    (pool.exchange old retain freed size).pool.allocations + pool.blocks.length =
      pool.allocations + (pool.exchange old retain freed size).pool.blocks.length := by
  by_cases hmust : pool.MustAllocate old retain freed size
  · obtain ⟨-, hcapacities, -⟩ := hmust.exchange_of_le (hmust.le_of_ok hok)
    have hlength := congrArg List.length hcapacities
    rw [length_capacities, List.length_append, length_capacities, List.length_singleton] at hlength
    rw [hmust.allocations_exchange, hlength]
    omega
  · obtain ⟨_, -, hkept, -, hperm⟩ := exchange_of_not_mustAllocate hmust
    have hlength := hperm.length_eq
    rw [List.length_cons, List.length_cons, length_capacities, length_capacities] at hlength
    rw [hkept, Nat.succ_inj.1 hlength]

/-- If there are as many blocks as buffers were asked for, there are after a swap that
returns. -/
theorem allocations_eq_exchange {buffer : Buffer}
    (hcount : pool.allocations = pool.blocks.length)
    (hok : (pool.exchange old retain freed size).result = .ok buffer) :
    (pool.exchange old retain freed size).pool.allocations =
      (pool.exchange old retain freed size).pool.blocks.length := by
  have hbalance := allocations_add_exchange hok
  omega

end

end Lookahead.Pool
