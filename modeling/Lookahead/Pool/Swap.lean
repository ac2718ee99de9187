import Lookahead.Event
import Lookahead.Fault
import Lookahead.Pool.Basic

/-!
# Swapping buffers

A full buffer is handed over and one with more room comes back, with the bytes
of the unfinished token at its front. The bytes before the token are parked
unless all of them are freed. There are three ways to find the room: slide the
token down where it is, use an inactive block again, or allocate.

A swap that breaks its contract is stopped before anything has changed. One that
asks for a buffer larger than any buffer can be is stopped later: the buffer has
been counted as allocated, and nothing else has changed.

## Main definitions

* `Pool.swap`: the exchange, with the contract of the caller tested.
* `Pool.exchange`: the same without the test.
* `Pool.link`: adds a block to the chain.
-/
namespace Lookahead.Pool

/-- What a swap leads to. -/
structure Exchange where
  /-- The buffer that comes back, unless the swap is stopped. -/
  result : Except Fault Buffer
  pool : Pool
  log : List Event := []

/-- Links a block as the newest of the chain. If it is the only one, `freed` of
its bytes are freed already. -/
def link (pool : Pool) (index freed : Nat) : Pool :=
  { pool with
    blocks := pool.head.elim pool.blocks fun head =>
      pool.blocks.modify head fun block => { block with next := some index }
    head := some index
    tail := pool.tail.or (some index)
    offset := if pool.isDrained then freed else pool.offset }

/-- Replaces a block. -/
def replace (pool : Pool) (index : Nat) (block : Block) : Pool :=
  { pool with blocks := pool.blocks.set index block }

/-- Adds a block to the arena. -/
def push (pool : Pool) (block : Block) : Pool :=
  { pool with blocks := pool.blocks ++ [block] }

/-- Counts one more allocation. -/
def countAllocation (pool : Pool) : Pool := { pool with allocations := pool.allocations + 1 }

/-- Exchanges a buffer for one of at least `size` bytes. The first `retain` bytes
are shifted, the first `freed` of these are freed, and the bytes behind them are
carried over. -/
def exchange (pool : Pool) (old : Buffer) (retain freed size : Nat) : Exchange :=
  if retain ≤ freed ∧ size ≤ old.capacity then
    { result := .ok (old.drop retain), pool }
  else
    let carried := old.bytes.drop retain
    let block : Block := { buffer := old.take retain, active := freed < retain }
    let settle (pool : Pool) (index : Nat) : Pool :=
      if freed < retain then pool.link index freed else pool
    match pool.reusable? size with
    | some index =>
      { result := .ok ⟨carried, pool.capacityAt index⟩
        pool := settle (pool.replace index block) index
        log := [.reusing index (pool.capacityAt index)] }
    | none =>
      let log := [Event.allocating size pool.blocks.length]
      if size ≤ Word.maxAllocation then
        { result := .ok ⟨carried, size⟩
          pool := settle (pool.countAllocation.push block) pool.blocks.length
          log }
      else
        { result := .error .capacityOverflow, pool := pool.countAllocation, log }

/-- Exchanges a buffer for one with room. The caller promises that the freed
bytes are among the retained ones, these among the bytes of the buffer, and that
none of them is freed while older bytes are parked. -/
def swap (mode : Mode) (pool : Pool) (old : Buffer) (retain freed size : Nat) : Exchange :=
  if mode.Rejects (freed ≤ retain ∧ retain ≤ old.length) then
    { result := .error .misplacedRetention, pool }
  else if mode.Rejects (freed = 0 ∨ pool.isDrained = true) then
    { result := .error .freedBeforeDrained, pool }
  else
    pool.exchange old retain freed size

/-- The bytes of the unfinished token come back, whichever way the room was
found. -/
theorem bytes_of_exchange {pool : Pool} {old buffer : Buffer} {retain freed size : Nat}
    (h : (pool.exchange old retain freed size).result = .ok buffer) :
    buffer.bytes = old.bytes.drop retain := by
  simp only [exchange] at h
  split at h
  · rw [← Except.ok.inj h]
    rfl
  · split at h
    · rw [← Except.ok.inj h]
    · split at h
      · rw [← Except.ok.inj h]
      · exact nomatch h

theorem swap_eq_exchange {mode : Mode} {pool : Pool} {old buffer : Buffer}
    {retain freed size : Nat} (h : (pool.swap mode old retain freed size).result = .ok buffer) :
    pool.swap mode old retain freed size = pool.exchange old retain freed size := by
  simp only [swap] at h ⊢
  split at h
  · exact nomatch h
  · split at h
    · exact nomatch h
    · rename_i hm hf
      rw [if_neg hm, if_neg hf]

theorem bytes_of_swap {mode : Mode} {pool : Pool} {old buffer : Buffer} {retain freed size : Nat}
    (h : (pool.swap mode old retain freed size).result = .ok buffer) :
    buffer.bytes = old.bytes.drop retain :=
  bytes_of_exchange (swap_eq_exchange h ▸ h)

end Lookahead.Pool
