import Lookahead.Event
import Lookahead.Pool.Basic

/-!
# Freeing parked bytes

Bytes are freed from the oldest on. A block whose bytes are all freed leaves the
chain and becomes inactive. What runs past the end of the chain is the spill: it
belongs to the window.

## Main definitions

* `Pool.free`: frees bytes and tells the spill.
* `Pool.retire`: takes the tail off the chain.
-/
namespace Lookahead.Pool

/-- What freeing leads to. -/
structure Release where
  /-- How many bytes were to be freed beyond the parked ones. -/
  spill : Nat
  pool : Pool
  log : List Event := []

/-- Takes the tail, the given block, off the chain. -/
def retire (pool : Pool) (index : Nat) : Pool :=
  { pool with
    blocks := pool.blocks.modify index fun block => { block with next := none, active := false }
    tail := pool.nextAt index
    offset := 0 }

/-- Frees `n` bytes of the blocks listed, which are those of the chain. -/
def freeAlong (pool : Pool) (n : Nat) : List Nat → Release
  | [] => { spill := n, pool := { pool with head := none } }
  | index :: newer =>
    let left := pool.lengthAt index - pool.offset
    if n < left then
      { spill := 0, pool := { pool with offset := pool.offset + n } }
    else
      let later := (pool.retire index).freeAlong (n - left) newer
      { later with log := .drained index (pool.lengthAt index) :: later.log }

/-- Frees `n` bytes, oldest first. -/
def free (pool : Pool) (n : Nat) : Release := pool.freeAlong n pool.chain

/-- Freeing asks for no buffer. -/
theorem allocations_freeAlong (pool : Pool) (n : Nat) (indices : List Nat) :
    (pool.freeAlong n indices).pool.allocations = pool.allocations := by
  induction indices generalizing pool n with
  | nil => rfl
  | cons index newer ih =>
    rw [freeAlong]
    split
    · rfl
    · exact ih ..

end Lookahead.Pool
