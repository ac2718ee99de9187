import Lookahead.Buffer

/-!
# The block pool

When the window moves on, the buffer it leaves may hold bytes that were shifted
but not freed. Such buffers are parked as blocks of an arena and linked from the
oldest to the newest. The chain begins at the tail, of which the first `offset`
bytes are freed already, and ends at the head. Blocks off the chain are inactive:
their storage can be used again.

The links are the representation; what a pool stands for is the queue of parked
bytes, `Pool.parked`.

## Main definitions

* `Block` and `Pool`.
* `Pool.chain`: the indices of the linked blocks, oldest first.
* `Pool.parked`, the parked bytes, and `Pool.outstanding`, their number.
* `Pool.reusable?`: the first inactive block of a given capacity.
-/
namespace Lookahead

/-- A buffer in the arena of a pool. -/
structure Block where
  buffer : Buffer
  /-- The next newer block of the chain. -/
  next : Option Nat := none
  /-- Whether some of the bytes are not freed yet. -/
  active : Bool := false
deriving DecidableEq

/-- Buffers left behind by the window. -/
@[ext] structure Pool where
  blocks : List Block := []
  /-- The newest block of the chain. -/
  head : Option Nat := none
  /-- The oldest block of the chain. -/
  tail : Option Nat := none
  /-- The number of bytes of the tail that are freed. -/
  offset : Nat := 0
  /-- The number of buffers asked for so far. -/
  allocations : Nat := 0
deriving DecidableEq

namespace Pool

/-- A pool without blocks. -/
def empty : Pool := {}

/-- The bytes of a block; there are none outside the arena. -/
def bytesAt (pool : Pool) (index : Nat) : List UInt8 :=
  pool.blocks[index]?.elim [] (·.buffer.bytes)

/-- The number of bytes of a block. -/
def lengthAt (pool : Pool) (index : Nat) : Nat := (pool.bytesAt index).length

/-- The capacity of a block. -/
def capacityAt (pool : Pool) (index : Nat) : Nat :=
  pool.blocks[index]?.elim 0 (·.buffer.capacity)

/-- The block linked behind a block. -/
def nextAt (pool : Pool) (index : Nat) : Option Nat := pool.blocks[index]?.bind (·.next)

/-- The first `n` indices met when following the links from a given place. -/
def chainFrom (pool : Pool) : Nat → Option Nat → List Nat
  | 0, _ => []
  | _, none => []
  | n + 1, some index => index :: pool.chainFrom n (pool.nextAt index)

/-- The indices of the linked blocks, oldest first. No block is met twice, so
there are no more than the arena has blocks. -/
def chain (pool : Pool) : List Nat := pool.chainFrom pool.blocks.length pool.tail

/-- The bytes parked and not yet freed, oldest first. -/
def parked (pool : Pool) : List UInt8 := (pool.chain.flatMap pool.bytesAt).drop pool.offset

/-- The number of bytes parked and not yet freed. -/
def outstanding (pool : Pool) : Nat :=
  pool.chain.foldr (fun index total => pool.lengthAt index + total) 0 - pool.offset

/-- Whether no block holds bytes that are not freed. -/
def isDrained (pool : Pool) : Bool := pool.tail.isNone

/-- The first block that can take `size` bytes and holds none that matter. -/
def reusable? (pool : Pool) (size : Nat) : Option Nat :=
  pool.blocks.findIdx? fun block => !block.active && decide (size ≤ block.buffer.capacity)

@[simp] theorem chain_empty : empty.chain = [] := rfl
@[simp] theorem parked_empty : empty.parked = [] := rfl
@[simp] theorem outstanding_empty : empty.outstanding = 0 := rfl

/-- Counting the parked bytes and listing them agree. -/
theorem length_parked (pool : Pool) : pool.parked.length = pool.outstanding := by
  have total (indices : List Nat) : (indices.flatMap pool.bytesAt).length =
      indices.foldr (fun index total => pool.lengthAt index + total) 0 := by
    induction indices with
    | nil => rfl
    | cons index indices ih => rw [List.flatMap_cons, List.length_append, ih]; rfl
  rw [parked, List.length_drop, total]
  rfl

end Pool
end Lookahead
