import Lookahead.Proofs.ByteQueue
import Lookahead.Proofs.Pool.Stock

/-!
# The thread through the arena

The chain of a pool is threaded through its arena by plain indices. A block used again while
it is linked, a stale link or a block without bytes would close a cycle, lose blocks or free
one twice. None of this comes about: whatever a pool is told, the links lead from the tail to
the head past every active block once, and all other blocks are off the thread.

The loops that follow the thread test nothing but the links. Here they are written down as
they run, cut off after a number of turns. As many turns as there are blocks are enough.

A swap that breaks the contract is stopped before anything has changed. One that needs a
larger buffer than any can be is stopped later, and the count of allocations runs ahead of
the blocks by one for each of them.

## Main definitions

* `Pool.Threaded`: how the blocks are linked.
* `Pool.freeWithin` and `Pool.outstandingWithin`: the loops that follow the links.
* `Pool.obeyAll` and `Pool.HonoursAll`: commands in a row that keep the contract.
* `Pool.overrunsAll`: the swaps that were stopped for want of storage.

## Main statements

* `Pool.Sound.threaded`: a sound pool is threaded.
* `Pool.Linked.freeWithin_eq` and `Pool.Sound.outstandingWithin_eq`: the loops end in time.
* `Pool.threaded_throughout`: a pool is threaded after any commands, and what it counts.
* `Pool.allocations_ahead_of_arena`: the count of allocations can be ahead of the blocks.
-/
namespace Lookahead.Pool

/-! ## The thread -/

/-- How the blocks of a pool are linked. -/
structure Threaded (pool : Pool) : Prop where
  /-- The links lead from the tail past the blocks of the chain and end there. -/
  leads : pool.Leads pool.tail pool.chain none
  /-- No block is met twice. -/
  nodup : pool.chain.Nodup
  /-- The last block met is the head. -/
  head_eq : pool.head = pool.chain.getLast?
  nextAt_head : ∀ head ∈ pool.head, pool.nextAt head = none
  head_eq_none_iff : pool.head = none ↔ pool.tail = none
  offset_eq : pool.tail = none → pool.offset = 0
  /-- A block is active just if it is met. -/
  active_iff : ∀ index, pool.activeAt index = true ↔ index ∈ pool.chain
  holds : ∀ index ∈ pool.chain, 0 < pool.lengthAt index
  offset_lt : ∀ tail ∈ pool.tail, pool.offset < pool.lengthAt tail
  /-- The other blocks have no link. -/
  next_eq : ∀ block ∈ pool.blocks, block.active = false → block.next = none
  /-- Every index that is stored is one of a block. -/
  inside : ∀ index, pool.head = some index ∨ pool.tail = some index ∨
    (∃ block ∈ pool.blocks, block.next = some index) → index < pool.blocks.length

section
variable {pool : Pool}

/-- The link of a block passed leads to another one passed. -/
theorem Leads.mem_of_nextAt {place : Option Nat} {indices : List Nat}
    (h : pool.Leads place indices none) {index next : Nat} (hi : index ∈ indices)
    (hnext : pool.nextAt index = some next) : next ∈ indices := by
  induction indices generalizing place with
  | nil => cases hi
  | cons first rest ih =>
    obtain ⟨-, -, hrest⟩ := h
    rcases List.mem_cons.1 hi with rfl | hi
    · rw [hnext] at hrest
      exact List.mem_cons_of_mem _ (List.mem_of_mem_head? hrest.head?)
    · exact List.mem_cons_of_mem _ (ih hrest hi)

/-- Nothing is linked behind the last block passed. -/
theorem Leads.nextAt_getLast? {place : Option Nat} {indices : List Nat}
    (h : pool.Leads place indices none) : ∀ last ∈ indices.getLast?, pool.nextAt last = none := by
  intro last hl
  obtain ⟨older, rfl⟩ := List.getLast?_eq_some_iff.1 hl
  obtain ⟨between, -, -, -, hend⟩ := leads_append.1 h
  exact hend

theorem Sound.head_eq (h : pool.Sound) : pool.head = pool.chain.getLast? := by
  cases hl : pool.chain.getLast? with
  | none => exact h.head_nil (List.getLast?_eq_none_iff.1 hl)
  | some last => exact h.newest last hl

/-- A block that is not active is off the chain and has no link. -/
theorem Sound.next_eq (h : pool.Sound) : ∀ block ∈ pool.blocks, block.active = false →
    block.next = none := by
  intro block hb hidle
  obtain ⟨index, hindex⟩ := List.mem_iff_getElem?.1 hb
  have hoff : index ∉ pool.chain := by
    rw [← h.active_iff, activeAt, hindex]
    simpa using hidle
  have hnext := h.idle index hoff
  rwa [nextAt, hindex] at hnext

/-- Every index that is stored is one of a block of the chain. -/
theorem Sound.mem_chain_of_stored (h : pool.Sound) {index : Nat}
    (hstored : pool.head = some index ∨ pool.tail = some index ∨
      ∃ block ∈ pool.blocks, block.next = some index) : index ∈ pool.chain := by
  rcases hstored with hhead | htail | ⟨block, hb, hnext⟩
  · exact h.mem_of_head hhead
  · rw [h.tail_eq] at htail
    exact List.mem_of_mem_head? htail
  · obtain ⟨place, hplace⟩ := List.mem_iff_getElem?.1 hb
    have hlink : pool.nextAt place = some index := by
      rw [nextAt, hplace]
      exact hnext
    have hmem : place ∈ pool.chain := by
      by_contra hoff
      rw [h.idle place hoff] at hlink
      cases hlink
    exact h.leads.mem_of_nextAt hmem hlink

/-- **A sound pool is threaded.** -/
theorem Sound.threaded (h : pool.Sound) : pool.Threaded where
  leads := h.leads
  nodup := h.nodup
  head_eq := h.head_eq
  nextAt_head := by
    rw [h.head_eq]
    exact h.leads.nextAt_getLast?
  head_eq_none_iff := by
    rw [h.head_eq, h.tail_eq, List.getLast?_eq_none_iff, List.head?_eq_none_iff]
  offset_eq := by
    rw [h.tail_eq, List.head?_eq_none_iff]
    exact h.offset_nil
  active_iff := h.active_iff
  holds := h.holds
  offset_lt := by
    rw [h.tail_eq]
    exact h.offset_lt
  next_eq := h.next_eq
  inside := fun _ hstored => h.leads.lt_length _ (h.mem_chain_of_stored hstored)

end

/-! ## The loops -/

/-- Frees `n` bytes following the links, in so many turns at most. There is no way on from an
index that is not one of a block. -/
def freeWithin (turns : Nat) (pool : Pool) (n : Nat) : Option Release :=
  match pool.tail, turns with
  | none, _ => some { spill := n, pool := { pool with head := none } }
  | some _, 0 => none
  | some index, turns + 1 =>
    match pool.blocks[index]? with
    | none => none
    | some block =>
      let left := block.buffer.length - pool.offset
      if n < left then
        some { spill := 0, pool := { pool with offset := pool.offset + n } }
      else
        ((pool.retire index).freeWithin turns (n - left)).map fun later =>
          { later with log := .drained index block.buffer.length :: later.log }

/-- Adds up the lengths of the blocks met from a place on, in so many turns at most. -/
def totalWithin (pool : Pool) : Nat → Option Nat → Nat → Option Nat
  | _, none, total => some total
  | 0, some _, _ => none
  | turns + 1, some index, total =>
    match pool.blocks[index]? with
    | none => none
    | some block => pool.totalWithin turns block.next (total + block.buffer.length)

/-- Counts the bytes parked and not yet freed, in so many turns at most. -/
def outstandingWithin (pool : Pool) (turns : Nat) : Option Nat :=
  (pool.totalWithin turns pool.tail 0).map fun total => total - min pool.offset total

section
variable {pool : Pool} {indices : List Nat} {turns : Nat}

/-- A block that is met is in the arena. -/
theorem Leads.exists_block {place stop : Option Nat} (h : pool.Leads place indices stop) :
    ∀ index ∈ indices, ∃ block, pool.blocks[index]? = some block := fun index hi =>
  ⟨_, List.getElem?_eq_getElem (h.lt_length index hi)⟩

/-- **Freeing takes no more turns than there are blocks on the chain.** -/
theorem Linked.freeWithin_eq (h : pool.Linked indices) (hturns : indices.length ≤ turns)
    (n : Nat) : pool.freeWithin turns n = some (pool.freeAlong n indices) := by
  induction indices generalizing pool turns n with
  | nil =>
    have htail : pool.tail = none := h.leads
    simp only [freeWithin, freeAlong, htail]
  | cons index newer ih =>
    have htail : pool.tail = some index := h.leads.1
    obtain ⟨block, hblock⟩ := h.leads.exists_block index List.mem_cons_self
    have hlength : pool.lengthAt index = block.buffer.length := by
      rw [lengthAt, bytesAt, hblock]
      rfl
    obtain ⟨turns, rfl⟩ : ∃ rest, turns = rest + 1 :=
      Nat.exists_eq_add_one.2 (Nat.lt_of_lt_of_le (Nat.succ_pos _) hturns)
    have hrest : newer.length ≤ turns := Nat.le_of_succ_le_succ hturns
    unfold freeWithin
    simp only [freeAlong, htail, hblock, hlength]
    split
    · rfl
    · rw [ih h.retire hrest]
      rfl

theorem Leads.totalWithin_eq {place : Option Nat} (h : pool.Leads place indices none)
    (hturns : indices.length ≤ turns) (total : Nat) :
    pool.totalWithin turns place total =
      some (total + indices.foldr (fun index total => pool.lengthAt index + total) 0) := by
  induction indices generalizing place turns total with
  | nil =>
    cases (h : place = none)
    rw [totalWithin]
    rfl
  | cons index newer ih =>
    obtain ⟨block, hblock⟩ := h.exists_block index List.mem_cons_self
    obtain ⟨rfl, -, hnewer⟩ := h
    have hlength : pool.lengthAt index = block.buffer.length := by
      rw [lengthAt, bytesAt, hblock]
      rfl
    have hnext : pool.nextAt index = block.next := by
      rw [nextAt, hblock]
      rfl
    obtain ⟨turns, rfl⟩ : ∃ rest, turns = rest + 1 :=
      Nat.exists_eq_add_one.2 (Nat.lt_of_lt_of_le (Nat.succ_pos _) hturns)
    rw [hnext] at hnewer
    rw [totalWithin, hblock]
    simp only [ih hnewer (Nat.le_of_succ_le_succ hturns), List.foldr_cons, hlength, Nat.add_assoc]

/-- **So does counting.** -/
theorem Sound.outstandingWithin_eq (h : pool.Sound) (hturns : pool.chain.length ≤ turns) :
    pool.outstandingWithin turns = some pool.outstanding := by
  rw [outstandingWithin, h.leads.totalWithin_eq hturns, Nat.zero_add, Option.map_some, outstanding]
  congr 1
  omega

end

/-! ## Commands -/

/-- One for a swap that is stopped because it needs a larger buffer than any can be. -/
def overruns (mode : Mode) (pool : Pool) : Command → Nat
  | .swap old retain freed size =>
    if (pool.swap mode old retain freed size).result = .error .capacityOverflow then 1 else 0
  | .free _ => 0

/-- The pool after a list of commands. -/
def obeyAll (mode : Mode) (pool : Pool) (commands : List Command) : Pool :=
  commands.foldl (obey mode) pool

/-- Every command keeps the contract of the pool that it is given to. -/
def HonoursAll (mode : Mode) (pool : Pool) : List Command → Prop
  | [] => True
  | command :: commands =>
    pool.Honours command ∧ (pool.obey mode command).HonoursAll mode commands

instance (mode : Mode) (pool : Pool) (commands : List Command) :
    Decidable (pool.HonoursAll mode commands) := by
  induction commands generalizing pool with
  | nil => exact inferInstanceAs (Decidable True)
  | cons command commands ih => exact inferInstanceAs (Decidable (_ ∧ _))

/-- The number of swaps that are stopped because they need a larger buffer than any can be. -/
def overrunsAll (mode : Mode) (pool : Pool) : List Command → Nat
  | [] => 0
  | command :: commands =>
    pool.overruns mode command + (pool.obey mode command).overrunsAll mode commands

section
variable {mode : Mode} {pool : Pool} {command : Command} {commands : List Command}
  {old : Buffer} {retain freed size : Nat}

/-- A swap that breaks the contract is stopped by a checked pool, which stays as it is. -/
theorem swap_of_not_honours (h : ¬pool.Honours (.swap old retain freed size)) :
    ∃ fault, pool.swap .checked old retain freed size = { result := .error fault, pool } ∧
      fault ≠ .capacityOverflow := by
  rw [swap]
  split
  · exact ⟨_, rfl, by decide⟩
  · rename_i hrange
    split
    · exact ⟨_, rfl, by decide⟩
    · rename_i hdrained
      rw [Mode.checked_rejects_iff, not_not] at hrange hdrained
      exact absurd ⟨hrange, hdrained⟩ h

/-- **A command keeps a pool sound** if it is tested or keeps the contract. -/
theorem Sound.obey (h : pool.Sound)
    (hcontract : mode = .checked ∨ pool.Honours command) : (pool.obey mode command).Sound := by
  cases command with
  | free n => exact (h.frees n).sound
  | swap old retain freed size =>
    rw [obey]
    by_cases hmeets : pool.Honours (.swap old retain freed size)
    · rw [hmeets.swap_eq]
      exact h.exchange hmeets.1.2 freed size
    · obtain rfl := hcontract.resolve_right hmeets
      obtain ⟨fault, hstopped, -⟩ := swap_of_not_honours hmeets
      rw [hstopped]
      exact h

/-- So do commands in a row. -/
theorem Sound.obeyAll (h : pool.Sound)
    (hcontract : mode = .checked ∨ pool.HonoursAll mode commands) :
    (pool.obeyAll mode commands).Sound := by
  induction commands generalizing pool with
  | nil => exact h
  | cons command commands ih =>
    exact ih (h.obey (hcontract.imp_right And.left)) (hcontract.imp_right And.right)

/-! ## Counting allocations -/

/-- A command asks for as many buffers as it adds blocks, and for one more if it is stopped
for want of storage. -/
theorem allocations_obey (mode : Mode) (pool : Pool) (command : Command) :
    (pool.obey mode command).allocations + pool.blocks.length =
      pool.allocations + (pool.obey mode command).blocks.length + pool.overruns mode command := by
  cases command with
  | free n =>
    have hlength := pool.length_blocks_freeAlong n pool.chain
    have hallocations := pool.allocations_freeAlong n pool.chain
    simp only [obey, overruns, free]
    omega
  | swap old retain freed size =>
    simp only [obey, overruns]
    cases hr : (pool.swap mode old retain freed size).result with
    | ok buffer =>
      have hexchange := swap_eq_exchange hr
      rw [hexchange] at hr ⊢
      rw [if_neg nofun, Nat.add_zero]
      exact allocations_add_exchange hr
    | error fault =>
      rcases swap_of_error hr with ⟨hother, hpool⟩ | ⟨rfl, hpool⟩
      · rw [hpool, if_neg fun he => hother (Except.error.inj he), Nat.add_zero]
      · rw [hpool, if_pos rfl]
        simp only [countAllocation]
        omega

/-- The count of allocations is ahead of the blocks by the swaps stopped for want of storage. -/
theorem allocations_obeyAll (mode : Mode) (pool : Pool) (commands : List Command) :
    (pool.obeyAll mode commands).allocations + pool.blocks.length =
      pool.allocations + (pool.obeyAll mode commands).blocks.length +
        pool.overrunsAll mode commands := by
  induction commands generalizing pool with
  | nil => rfl
  | cons command commands ih =>
    have hfirst := allocations_obey mode pool command
    have hothers := ih (pool.obey mode command)
    change ((pool.obey mode command).obeyAll mode commands).allocations + _ =
      _ + ((pool.obey mode command).obeyAll mode commands).blocks.length + _
    rw [overrunsAll]
    omega

end

/-! ## Sequences of commands -/

/-- **A pool is threaded at any point of any sequence of commands.** In a checked pool a swap
that breaks the contract changes nothing; the others keep the thread from the tail to the
head past every active block, whether they are stopped or not. The loops that follow it are
over after as many turns as there are blocks. There is a block for every allocation but those
that were stopped for want of storage. -/
theorem threaded_throughout (mode : Mode) {commands : List Command}
    (hcontract : mode = .checked ∨ empty.HonoursAll mode commands) :
    let here := empty.obeyAll mode commands
    here.Threaded ∧
      here.allocations = here.blocks.length + empty.overrunsAll mode commands ∧
      (∀ n, here.freeWithin here.blocks.length n = some (here.free n)) ∧
      here.outstandingWithin here.blocks.length = some here.outstanding ∧
      ∀ old retain freed size, ¬here.Honours (.swap old retain freed size) →
        ∃ fault, here.swap .checked old retain freed size =
          { result := .error fault, pool := here } := by
  intro here
  have hsound : here.Sound := sound_empty.obeyAll hcontract
  have hcount := allocations_obeyAll mode empty commands
  have hturns := hsound.leads.length_le hsound.nodup
  refine ⟨hsound.threaded, ?_, hsound.toLinked.freeWithin_eq hturns,
    hsound.outstandingWithin_eq hturns, ?_⟩
  · change here.allocations + 0 = 0 + here.blocks.length + _ at hcount
    omega
  · intro old retain freed size hbroken
    obtain ⟨fault, hstopped, -⟩ := swap_of_not_honours hbroken
    exact ⟨fault, hstopped⟩

/-- Of two parked blocks the first is freed and used again behind the second, a swap that
frees bytes of its buffer is rejected meanwhile, and one that asks for too much is stopped.
Two turns are enough to free both blocks, and one is not. -/
theorem threaded_throughout_recycled :
    let commands : List Command :=
      [.swap ⟨[1, 2, 3, 4], 8⟩ 3 0 8, .swap ⟨[4, 5, 6, 7], 8⟩ 3 0 8, .free 4,
        .swap ⟨[7, 8], 8⟩ 2 1 8, .swap ⟨[7, 8, 9], 8⟩ 2 0 8,
        .swap ⟨[9], 8⟩ 1 0 (Word.maxAllocation + 1)]
    let here := empty.obeyAll .checked commands
    here.Threaded ∧ here.chain = [1, 0] ∧ here.nextAt 1 = some 0 ∧ here.nextAt 0 = none ∧
      here.allocations = here.blocks.length + 1 ∧
      here.freeWithin here.blocks.length 9 = some (here.free 9) ∧
      (here.freeWithin 1 9).isNone = true := by
  intro commands here
  have hcontract : Mode.checked = .checked ∨ empty.HonoursAll .checked commands := .inl rfl
  obtain ⟨hthreaded, hcount, hfree, -⟩ := threaded_throughout .checked hcontract
  exact ⟨hthreaded, by decide +kernel, by decide +kernel, by decide +kernel,
    hcount.trans (by decide +kernel), hfree 9, by decide +kernel⟩

/-- **Not every allocation has a block**: nothing in the contract bounds the size asked for,
and a swap that is stopped for want of storage has been counted by then. -/
theorem allocations_ahead_of_arena :
    ¬∀ commands : List Command, empty.HonoursAll .checked commands →
      (empty.obeyAll .checked commands).allocations =
        (empty.obeyAll .checked commands).blocks.length := by
  intro h
  have hcount := h [.swap ⟨[97, 98], 2⟩ 1 0 (Word.maxAllocation + 1)] (by decide)
  revert hcount
  decide

end Lookahead.Pool
