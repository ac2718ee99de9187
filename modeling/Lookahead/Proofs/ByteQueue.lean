import Lookahead.Proofs.Pool.Queue
import Lookahead.Proofs.Pool.Stock
import Mathlib.Data.List.Induction

/-!
# The pool refines a queue of bytes

Beside a pool a caller may keep a list of bytes: a swap appends the bytes that stay
behind and are not freed, and freeing removes bytes at the front. Whatever commands a
pool is given, as long as they keep its contract, the blocks met from the tail on spell
this list, and all that can be asked of the pool is answered from it.

One swap appends nothing: one that has to allocate and asks for a larger buffer than any
can be is stopped, and the queue stays as it is.

## Main definitions

* `Pool.Command`, with `Pool.obey`.
* `Pool.Honours`, the contract that a swap tests, and `Pool.Admits`, which asks for room too.
* `Pool.Spells`: the bytes met when following the links.
* `Pool.Kept`: a pool with the list kept beside it.

## Main statements

* `Pool.Refines.swap`: every command keeps pool and list together.
* `Pool.refines_byte_queue`: after any commands the pool spells the queue and answers from it.
* `Pool.admitted_swap_stopped`: not every swap returns a buffer.
-/
namespace Lookahead.Pool

/-! ## Commands -/

/-- What a pool can be told to do. -/
inductive Command where
  | swap (old : Buffer) (retain freed size : Nat)
  | free (n : Nat)
deriving DecidableEq

/-- The pool after a command. -/
def obey (mode : Mode) (pool : Pool) : Command → Pool
  | .swap old retain freed size => (pool.swap mode old retain freed size).pool
  | .free n => (pool.free n).pool

/-- Whether a command is carried out. All are but a swap that is stopped. -/
def carriesOut (mode : Mode) (pool : Pool) : Command → Bool
  | .swap old retain freed size => (pool.swap mode old retain freed size).result.isOk
  | .free _ => true

/-- What is freed of a buffer is a part of what is retained, and that a part of the bytes;
nothing of it is freed while older bytes are parked. -/
def Honours (pool : Pool) : Command → Prop
  | .swap old retain freed _ =>
    (freed ≤ retain ∧ retain ≤ old.length) ∧ (freed = 0 ∨ pool.isDrained = true)
  | .free _ => True

instance (pool : Pool) : DecidablePred pool.Honours
  | .swap .. => inferInstanceAs (Decidable (_ ∧ _))
  | .free _ => inferInstanceAs (Decidable True)

/-- What is freed of a buffer is a part of what is retained, and that a part of the bytes;
nothing of it is freed while older bytes are parked, and there is to be room for the
others. -/
def Admits (pool : Pool) : Command → Prop
  | .swap old retain freed size =>
    freed ≤ retain ∧ retain ≤ old.length ∧ (freed = 0 ∨ pool.isDrained = true) ∧
      old.length - retain ≤ size
  | .free _ => True

instance (pool : Pool) : DecidablePred pool.Admits
  | .swap .. => inferInstanceAs (Decidable (_ ∧ _))
  | .free _ => inferInstanceAs (Decidable True)

/-- A command that is carried out, done to a list of bytes. -/
def Command.onQueue (queue : List UInt8) : Command → List UInt8
  | .swap old retain freed _ => queue ++ (old.bytes.take retain).drop freed
  | .free n => queue.drop (min n queue.length)

/-- A pool and the list of bytes that is kept beside it. -/
structure Kept where
  pool : Pool
  queue : List UInt8
deriving DecidableEq

namespace Kept

/-- Nothing is parked and the list is empty. -/
def start : Kept := ⟨.empty, []⟩

/-- A command given to the pool and, if it is carried out, to the list. -/
def obey (mode : Mode) (kept : Kept) (command : Command) : Kept where
  pool := kept.pool.obey mode command
  queue := if kept.pool.carriesOut mode command then command.onQueue kept.queue else kept.queue

/-- All commands, one after the other. -/
def after (mode : Mode) (kept : Kept) (commands : List Command) : Kept :=
  commands.foldl (obey mode) kept

/-- Every command keeps the contract of the pool that it is given to. -/
def AdmitsAll (mode : Mode) (kept : Kept) : List Command → Prop
  | [] => True
  | command :: commands =>
    kept.pool.Admits command ∧ (kept.obey mode command).AdmitsAll mode commands

instance (mode : Mode) (kept : Kept) (commands : List Command) :
    Decidable (kept.AdmitsAll mode commands) := by
  induction commands generalizing kept with
  | nil => exact inferInstanceAs (Decidable True)
  | cons command commands ih => exact inferInstanceAs (Decidable (_ ∧ _))

end Kept

/-! ## The bytes of the chain -/

/-- The bytes met when following the links from a place. The first bytes of the first
block are left out. -/
inductive Spells (pool : Pool) : Nat → Option Nat → List UInt8 → Prop
  | nil {skipped : Nat} : Spells pool skipped none []
  | cons {skipped index : Nat} {block : Block} {rest : List UInt8} :
    pool.blocks[index]? = some block → Spells pool 0 block.next rest →
    Spells pool skipped (some index) (block.buffer.bytes.drop skipped ++ rest)

variable {pool : Pool}

theorem Leads.spells {place : Option Nat} {indices : List Nat}
    (h : pool.Leads place indices none) : pool.Spells 0 place (indices.flatMap pool.bytesAt) := by
  induction indices generalizing place with
  | nil =>
    cases (h : place = none)
    exact .nil
  | cons index newer ih =>
    obtain ⟨rfl, hlt, hnewer⟩ := h
    have hblock := List.getElem?_eq_getElem hlt
    rw [nextAt, hblock] at hnewer
    rw [List.flatMap_cons, bytesAt, hblock]
    exact .cons hblock (ih hnewer)

/-- The links of a sound pool spell the bytes that are parked. -/
theorem Sound.spells (h : pool.Sound) : pool.Spells pool.offset pool.tail pool.parked := by
  have hleads := h.leads
  have hlinked := h.toLinked
  cases hc : pool.chain with
  | nil =>
    rw [hc] at hleads
    rw [h.parked_eq_nil_iff.2 (h.isDrained_iff.2 hc), show pool.tail = none from hleads]
    exact .nil
  | cons oldest newer =>
    rw [hc] at hleads hlinked
    obtain ⟨htail, hlt, hnewer⟩ := hleads
    have hblock := List.getElem?_eq_getElem hlt
    rw [nextAt, hblock] at hnewer
    rw [hlinked.parked_cons, htail, bytesAt, hblock]
    exact .cons hblock hnewer.spells

/-! ## One command -/

section
variable {old : Buffer} {retain freed size : Nat}

/-- A swap that keeps the contract is not rejected. -/
theorem Honours.swap_eq (h : pool.Honours (.swap old retain freed size)) (mode : Mode) :
    pool.swap mode old retain freed size = pool.exchange old retain freed size := by
  rw [swap, if_neg (Mode.not_rejects h.1), if_neg (Mode.not_rejects h.2)]

theorem Admits.honours {command : Command} (h : pool.Admits command) : pool.Honours command := by
  cases command with
  | swap old retain freed size =>
    obtain ⟨hfreed, hretain, hdrained, -⟩ := h
    exact ⟨⟨hfreed, hretain⟩, hdrained⟩
  | free n => trivial

theorem Admits.swap_eq (h : pool.Admits (.swap old retain freed size)) (mode : Mode) :
    pool.swap mode old retain freed size = pool.exchange old retain freed size :=
  h.honours.swap_eq mode

/-- A swap returns the other bytes in a buffer as large as asked for, unless it has to
allocate one that is larger than any can be. -/
theorem Admits.result_swap (h : pool.Admits (.swap old retain freed size)) (mode : Mode)
    (hfound : ¬(pool.MustAllocate old retain freed size ∧ Word.maxAllocation < size)) :
    ∃ buffer, (pool.swap mode old retain freed size).result = .ok buffer ∧
      buffer.bytes = old.bytes.drop retain ∧ size ≤ buffer.capacity ∧ buffer.Fits := by
  have hreturned : ∃ buffer, (pool.exchange old retain freed size).result = .ok buffer ∧
      size ≤ buffer.capacity := by
    by_cases hmust : pool.MustAllocate old retain freed size
    · have hm : size ≤ Word.maxAllocation := Nat.le_of_not_lt fun hlt => hfound ⟨hmust, hlt⟩
      exact ⟨_, (hmust.exchange_of_le hm).1, Nat.le_refl _⟩
    · obtain ⟨buffer, hok, -, hcapacity, -⟩ := exchange_of_not_mustAllocate hmust
      exact ⟨buffer, hok, hcapacity⟩
  obtain ⟨buffer, hok, hcapacity⟩ := hreturned
  have hbytes := bytes_of_exchange hok
  have hlength : buffer.length = old.length - retain := by
    rw [Buffer.length, hbytes, List.length_drop]
    rfl
  have hroom : old.length - retain ≤ size := h.2.2.2
  refine ⟨buffer, (h.swap_eq mode).symm ▸ hok, hbytes, hcapacity, ?_⟩
  rw [Buffer.Fits, hlength]
  exact Nat.le_trans hroom hcapacity

/-- Any other swap is stopped and leaves the blocks and the links as they are. -/
theorem Admits.swap_stopped (h : pool.Admits (.swap old retain freed size)) (mode : Mode)
    (hmust : pool.MustAllocate old retain freed size) (hm : Word.maxAllocation < size) :
    (pool.swap mode old retain freed size).result = .error .capacityOverflow ∧
      (pool.swap mode old retain freed size).pool = pool.countAllocation := by
  rw [h.swap_eq mode, hmust.exchange_eq]
  dsimp only
  rw [if_neg (Nat.not_le.2 hm)]
  exact ⟨rfl, rfl⟩

end

/-- A pool stands for a queue of bytes. -/
structure Refines (pool : Pool) (queue : List UInt8) : Prop where
  sound : pool.Sound
  parked_eq : pool.parked = queue

theorem refines_empty : empty.Refines [] := ⟨sound_empty, parked_empty⟩

section
variable {queue : List UInt8}

/-- **A swap that keeps the contract appends to the queue**, if it is carried out. -/
theorem Refines.swap (h : pool.Refines queue) {old : Buffer} {retain freed size : Nat}
    (hadmits : pool.Admits (.swap old retain freed size)) (mode : Mode) :
    (pool.swap mode old retain freed size).pool.Refines
      (if (pool.swap mode old retain freed size).result.isOk then
        queue ++ (old.bytes.take retain).drop freed else queue) := by
  by_cases hstop : pool.MustAllocate old retain freed size ∧ Word.maxAllocation < size
  · obtain ⟨hresult, hpool⟩ := hadmits.swap_stopped mode hstop.1 hstop.2
    rw [hresult, hpool]
    refine ⟨h.sound.countAllocation, ?_⟩
    rw [parked_eq_drop, h.sound.linkedBytes_countAllocation]
    exact h.parked_eq
  · obtain ⟨buffer, hok, -⟩ := hadmits.result_swap mode hstop
    rw [hok]
    rw [hadmits.swap_eq mode] at hok ⊢
    obtain ⟨hfreed, hretain, hdrained, -⟩ := hadmits
    refine ⟨h.sound.exchange hretain freed size, ?_⟩
    rw [h.sound.parked_exchange hfreed hretain hdrained hok, h.parked_eq]
    rfl

/-- **Freeing removes the front of the queue** and tells by how much it fell short. -/
theorem Refines.free (h : pool.Refines queue) (n : Nat) :
    (pool.free n).pool.Refines (queue.drop (min n queue.length)) ∧
      (pool.free n).spill = n - min n queue.length := by
  obtain ⟨hsound, hparked, hspill, -⟩ := h.sound.frees n
  rw [h.parked_eq] at hparked hspill
  refine ⟨⟨hsound, ?_⟩, ?_⟩
  · rw [hparked, ← List.drop_eq_drop_min]
  · rw [hspill]
    omega

/-- What can be asked of a pool is told by the queue. -/
theorem Refines.observed (h : pool.Refines queue) :
    pool.Spells pool.offset pool.tail queue ∧ pool.outstanding = queue.length ∧
      (pool.isDrained = true ↔ queue = []) := by
  have hparked := h.parked_eq
  refine ⟨hparked ▸ h.sound.spells, ?_, ?_⟩
  · rw [← length_parked, hparked]
  · rw [← h.sound.parked_eq_nil_iff, hparked]

end

/-! ## Sequences of commands -/

namespace Kept
variable {mode : Mode} {kept : Kept} {commands : List Command} {command : Command}

theorem after_concat : kept.after mode (commands ++ [command]) =
    (kept.after mode commands).obey mode command := List.foldl_concat ..

theorem admitsAll_concat : kept.AdmitsAll mode (commands ++ [command]) ↔
    kept.AdmitsAll mode commands ∧ (kept.after mode commands).pool.Admits command := by
  induction commands generalizing kept with
  | nil => simp [AdmitsAll, after]
  | cons first commands ih =>
    rw [List.cons_append, AdmitsAll, ih, AdmitsAll, and_assoc]
    rfl

/-- A command that keeps the contract keeps pool and list together. -/
theorem refines_obey (h : kept.pool.Refines kept.queue) (hadmits : kept.pool.Admits command)
    (mode : Mode) : (kept.obey mode command).pool.Refines (kept.obey mode command).queue := by
  cases command with
  | swap old retain freed size => exact h.swap hadmits mode
  | free n => exact (h.free n).1

theorem refines_after (hadmits : start.AdmitsAll mode commands) :
    (start.after mode commands).pool.Refines (start.after mode commands).queue := by
  induction commands using List.reverseRecOn with
  | nil => exact refines_empty
  | append_singleton commands command ih =>
    obtain ⟨hearly, hlast⟩ := admitsAll_concat.1 hadmits
    rw [after_concat]
    exact refines_obey (ih hearly) hlast mode

end Kept

/-- **A pool refines a queue of bytes.** At any point of a sequence of commands that keep
the contract, the blocks from the tail on spell the list kept beside the pool, which tells
how much is outstanding, whether the pool is drained and how much of a free is left over.
A swap returns the bytes behind those it retains in a buffer as large as asked for,
whichever way it finds the room; it is stopped only if it has to allocate more than any
buffer can hold. -/
theorem refines_byte_queue (mode : Mode) {commands : List Command}
    (hadmits : Kept.start.AdmitsAll mode commands) :
    let here := Kept.start.after mode commands
    here.pool.Spells here.pool.offset here.pool.tail here.queue ∧
      here.pool.outstanding = here.queue.length ∧
      (here.pool.isDrained = true ↔ here.queue = []) ∧
      (∀ n, (here.pool.free n).spill = n - min n here.queue.length) ∧
      ∀ old retain freed size, here.pool.Admits (.swap old retain freed size) →
        let swapped := here.pool.swap mode old retain freed size
        (¬(here.pool.MustAllocate old retain freed size ∧ Word.maxAllocation < size) →
          ∃ buffer, swapped.result = .ok buffer ∧ buffer.bytes = old.bytes.drop retain ∧
            size ≤ buffer.capacity ∧ buffer.Fits) ∧
        (here.pool.MustAllocate old retain freed size → Word.maxAllocation < size →
          swapped.result = .error .capacityOverflow) := by
  intro here
  have hrefines : here.pool.Refines here.queue := Kept.refines_after hadmits
  obtain ⟨hspells, houtstanding, hdrained⟩ := hrefines.observed
  refine ⟨hspells, houtstanding, hdrained, fun n => (hrefines.free n).2, ?_⟩
  intro old retain freed size hnext swapped
  exact ⟨hnext.result_swap mode, fun hmust hm => (hnext.swap_stopped mode hmust hm).1⟩

/-- A free goes past the end of the first block and ends inside the second. The first is
used again for the third swap, and the bytes of the queue are those of two blocks whose
places in the arena are not in order. -/
theorem refines_byte_queue_recycled :
    let commands : List Command :=
      [.swap ⟨[1, 2, 3, 4], 8⟩ 3 0 8, .swap ⟨[4, 5, 6, 7], 8⟩ 3 0 8, .free 4,
        .swap ⟨[7, 8, 9], 8⟩ 2 0 8]
    let here := Kept.start.after .checked commands
    Kept.start.AdmitsAll .checked commands ∧ here.queue = [5, 6, 7, 8] ∧
      here.pool.chain = [1, 0] ∧ here.pool.offset = 1 ∧
      here.pool.Spells here.pool.offset here.pool.tail here.queue ∧
      (here.pool.free 6).spill = 2 := by
  intro commands here
  have hadmits : Kept.start.AdmitsAll .checked commands := by decide +kernel
  obtain ⟨hspells, -, -, hspill, -⟩ := refines_byte_queue .checked hadmits
  exact ⟨hadmits, by decide +kernel, by decide +kernel, by decide +kernel, hspells,
    (hspill 6).trans (by decide +kernel)⟩

/-- **Not every swap that keeps the contract returns**: nothing in it bounds the size asked
for, and no buffer can hold half the words. -/
theorem admitted_swap_stopped :
    ¬∀ (mode : Mode) (commands : List Command) (old : Buffer) (retain freed size : Nat),
      Kept.start.AdmitsAll mode (commands ++ [.swap old retain freed size]) →
        ∃ buffer, ((Kept.start.after mode commands).pool.swap mode old retain freed
          size).result = .ok buffer := by
  intro h
  obtain ⟨buffer, hok⟩ := h .checked [] ⟨[97, 98, 99], 3⟩ 1 0 (2 ^ 63) (by decide)
  have hstopped : ((Kept.start.after .checked []).pool.swap .checked ⟨[97, 98, 99], 3⟩ 1 0
      (2 ^ 63)).result = .error .capacityOverflow := by decide
  rw [hstopped] at hok
  cases hok

end Lookahead.Pool
