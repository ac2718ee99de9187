import Lookahead.Proofs.Pool.Holdings
import Lookahead.Proofs.Pool.Stock
import Lookahead.Proofs.Scanner.Affordable
import Mathlib.Algebra.BigOperators.Group.Finset.Basic
import Mathlib.Algebra.Group.Action.Defs
import Mathlib.Algebra.Order.BigOperators.Group.Finset
import Mathlib.Algebra.Order.Ring.Nat

/-!
# The footprint of a pool

A caller of a pool works with one buffer at a time, hands it over in a swap and goes on
with the one that comes back. The buffers of such a session are the one it began with and
those that were allocated. An allocation of a size is made only when all buffers as large
are in use, so no size is allocated more often than there were buffers in use at once.

A swap that asks for a larger buffer than any can be is counted as an allocation before
it is stopped, so the count runs ahead of the blocks from then on.

## Main definitions

* `Pool.Session`, with `Session.serve` and `Session.after`.
* `Session.Admits`: the caller keeps its side of the contract.
* `Session.peak`: the most buffers that were in use at once.

## Main statements

* `Session.Accounts.serve`: what a request does to the balance of buffers.
* `Session.footprint_le`: when a session allocates, and how many buffers it can come to.
* `Session.allocations_ahead_of_blocks`: what a swap that is stopped leaves behind.
-/
namespace Lookahead.Pool

/-- What a caller asks of a pool. The bytes of a swap are what its buffer holds by then. -/
inductive Request where
  | swap (bytes : List UInt8) (retain freed size : Nat)
  | free (n : Nat)
deriving DecidableEq

/-- The size that is asked for, if one is. -/
def Request.size? : Request → Option Nat
  | swap _ _ _ size => some size
  | free _ => none

/-- A pool and the buffer that its caller works with. -/
structure Session where
  pool : Pool
  live : Buffer
deriving DecidableEq

namespace Session

/-- A session with nothing in the pool. -/
def start (first : Buffer) : Session := ⟨.empty, first⟩

/-- The caller's buffer, filled with other bytes. -/
def filled (session : Session) (bytes : List UInt8) : Buffer := { session.live with bytes }

/-- Hands in a request. A caller whose swap is stopped is left with an empty buffer. -/
def serve (mode : Mode) (session : Session) : Request → Session
  | .swap bytes retain freed size =>
    let swapped := session.pool.swap mode (session.filled bytes) retain freed size
    { pool := swapped.pool, live := swapped.result.toOption.getD (.empty 0) }
  | .free n => { session with pool := (session.pool.free n).pool }

/-- The session at the end of a list of requests. -/
def after (mode : Mode) (session : Session) (requests : List Request) : Session :=
  requests.foldl (serve mode) session

/-- The caller fills its buffer within the capacity, frees and retains front parts of it,
frees nothing of it while older bytes are parked, and asks for room for the rest. -/
def Admits (session : Session) : Request → Prop
  | .swap bytes retain freed size =>
    bytes.length ≤ session.live.capacity ∧ freed ≤ retain ∧ retain ≤ bytes.length ∧
      (freed = 0 ∨ session.pool.isDrained = true) ∧ bytes.length - retain ≤ size
  | .free _ => True

instance (session : Session) : DecidablePred session.Admits
  | .swap .. => inferInstanceAs (Decidable (_ ∧ _))
  | .free _ => inferInstanceAs (Decidable True)

/-- The caller does so throughout. -/
def AdmitsAll (mode : Mode) (session : Session) : List Request → Prop
  | [] => True
  | request :: requests =>
    session.Admits request ∧ (session.serve mode request).AdmitsAll mode requests

instance (mode : Mode) (session : Session) (requests : List Request) :
    Decidable (session.AdmitsAll mode requests) := by
  induction requests generalizing session with
  | nil => exact inferInstanceAs (Decidable True)
  | cons request requests ih => exact inferInstanceAs (Decidable (_ ∧ _))

/-- The most buffers that were in use at once. -/
def peak (mode : Mode) (session : Session) : List Request → Nat
  | [] => session.pool.inUse
  | request :: requests => max session.pool.inUse ((session.serve mode request).peak mode requests)

/-- The sizes asked for. -/
def sizes (requests : List Request) : List Nat := requests.filterMap Request.size?

variable {mode : Mode} {session : Session}

theorem after_concat (mode : Mode) (session : Session) (requests : List Request)
    (request : Request) :
    session.after mode (requests ++ [request]) = (session.after mode requests).serve mode request :=
  List.foldl_concat ..

theorem admitsAll_concat {requests : List Request} {request : Request} :
    session.AdmitsAll mode (requests ++ [request]) ↔
      session.AdmitsAll mode requests ∧ (session.after mode requests).Admits request := by
  induction requests generalizing session with
  | nil => simp [AdmitsAll, after]
  | cons first requests ih =>
    rw [List.cons_append, AdmitsAll, ih, AdmitsAll, and_assoc]
    rfl

theorem peak_concat (mode : Mode) (session : Session) (requests : List Request)
    (request : Request) :
    session.peak mode (requests ++ [request]) =
      max (session.peak mode requests)
        ((session.after mode requests).serve mode request).pool.inUse := by
  induction requests generalizing session with
  | nil => rfl
  | cons first requests ih =>
    rw [List.cons_append, peak, ih, peak, max_assoc]
    rfl

/-- A swap that the caller keeps the contract of is not rejected. -/
theorem swap_eq (mode : Mode) {bytes : List UInt8} {retain freed size : Nat}
    (h : session.Admits (.swap bytes retain freed size)) :
    session.pool.swap mode (session.filled bytes) retain freed size =
      session.pool.exchange (session.filled bytes) retain freed size := by
  obtain ⟨-, hfreed, hretain, hdrained, -⟩ := h
  have hrange : freed ≤ retain ∧ retain ≤ (session.filled bytes).length := ⟨hfreed, hretain⟩
  rw [swap, if_neg (Mode.not_rejects hrange), if_neg (Mode.not_rejects hdrained)]

/-! ## The balance of buffers -/

/-- The buffers of a session are its first one and those that were allocated, each of a
size asked for, and no size was allocated more often than a given number. -/
structure Accounts (session : Session) (first : Nat) (sizes allocated : List Nat)
    (most : Nat) : Prop where
  sound : session.pool.Sound
  balance : (session.live.capacity :: session.pool.capacities).Perm (first :: allocated)
  count_eq : session.pool.allocations = allocated.length
  asked : allocated ⊆ sizes
  repeats : ∀ size, allocated.count size ≤ most

theorem accounts_start (first : Buffer) : (start first).Accounts first.capacity [] [] 1 where
  sound := sound_empty
  balance := .refl _
  count_eq := rfl
  asked := List.Subset.refl _
  repeats := by simp

variable {first most : Nat} {asked allocated : List Nat}

/-- Every allocation has a block in the arena. -/
theorem Accounts.allocations_eq (h : session.Accounts first asked allocated most) :
    session.pool.allocations = session.pool.blocks.length := by
  have hlength := h.balance.length_eq
  rw [List.length_cons, List.length_cons, length_capacities] at hlength
  rw [h.count_eq]
  omega

/-- A list in which nothing is repeated too often is not long. -/
theorem length_le_of_count_le (h : ∀ size, allocated.count size ≤ most) :
    allocated.length ≤ allocated.toFinset.card * most := by
  have hsum := Multiset.toFinset_sum_count_eq (allocated : Multiset Nat)
  have hle := Finset.sum_le_card_nsmul (allocated : Multiset Nat).toFinset
    (fun size => (allocated : Multiset Nat).count size) most
    fun size _ => by simpa using h size
  rw [hsum, smul_eq_mul, Multiset.coe_card] at hle
  exact hle

theorem Accounts.allocations_le (h : session.Accounts first asked allocated most) :
    session.pool.allocations ≤ most * asked.toFinset.card := by
  have hsubset : allocated.toFinset ⊆ asked.toFinset := fun size hm =>
    List.mem_toFinset.2 (h.asked (List.mem_toFinset.1 hm))
  calc session.pool.allocations = allocated.length := h.count_eq
    _ ≤ allocated.toFinset.card * most := length_le_of_count_le h.repeats
    _ ≤ asked.toFinset.card * most := Nat.mul_le_mul_right most (Finset.card_le_card hsubset)
    _ = most * asked.toFinset.card := Nat.mul_comm ..

/-- If all buffers of the live one's size are in use, no more of them were allocated. -/
theorem count_le_inUse {size : Nat}
    (hbalance : (session.live.capacity :: session.pool.capacities).Perm (first :: allocated))
    (hlive : session.live.capacity = size) (hexhausted : session.pool.Exhausted size) :
    allocated.count size ≤ session.pool.inUse := by
  have hin := hexhausted.count_lt_inUse
  calc allocated.count size
    _ ≤ (first :: allocated).count size := List.count_le_count_cons
    _ = (session.live.capacity :: session.pool.capacities).count size :=
      (hbalance.count_eq size).symm
    _ = session.pool.capacities.count size + 1 := by rw [hlive, List.count_cons_self]
    _ ≤ session.pool.inUse := hin

/-- Freeing leaves all buffers where they are. -/
theorem serve_free (mode : Mode) (session : Session) (n : Nat) :
    (session.serve mode (.free n)).pool.allocations = session.pool.allocations ∧
      (session.serve mode (.free n)).live = session.live ∧
      (session.serve mode (.free n)).pool.capacities = session.pool.capacities :=
  ⟨allocations_freeAlong .., rfl, capacities_freeAlong ..⟩

/-- A swap that can do without an allocation trades buffers. -/
theorem serve_of_not_mustAllocate (mode : Mode) {bytes : List UInt8} {retain freed size : Nat}
    (hadmits : session.Admits (.swap bytes retain freed size))
    (hkeep : ¬session.pool.MustAllocate (session.filled bytes) retain freed size) :
    let there := session.serve mode (.swap bytes retain freed size)
    (session.pool.swap mode (session.filled bytes) retain freed size).result = .ok there.live ∧
      there.pool.allocations = session.pool.allocations ∧
      (there.live.capacity :: there.pool.capacities).Perm
        (session.live.capacity :: session.pool.capacities) := by
  obtain ⟨buffer, hok, hcount, -, hperm⟩ := exchange_of_not_mustAllocate hkeep
  rw [← swap_eq mode hadmits] at hok hcount hperm
  intro there
  have hlive : there.live = buffer := by
    simp only [there, serve, hok]
    rfl
  rw [hlive]
  exact ⟨hok, hcount, hperm⟩

/-- Any other is counted as an allocation, and makes a buffer of the size asked for if it
can be made. -/
theorem serve_of_mustAllocate (mode : Mode) {bytes : List UInt8} {retain freed size : Nat}
    (hadmits : session.Admits (.swap bytes retain freed size))
    (hmust : session.pool.MustAllocate (session.filled bytes) retain freed size) :
    let there := session.serve mode (.swap bytes retain freed size)
    there.pool.allocations = session.pool.allocations + 1 ∧
      (size ≤ Word.maxAllocation →
        (session.pool.swap mode (session.filled bytes) retain freed size).result =
            .ok there.live ∧
          there.live.capacity = size ∧
          there.pool.capacities = session.pool.capacities ++ [session.live.capacity] ∧
          there.pool.Exhausted size) := by
  have hcount := hmust.allocations_exchange
  rw [← swap_eq mode hadmits] at hcount
  refine ⟨hcount, fun hm => ?_⟩
  obtain ⟨hok, hcapacities, hexhausted⟩ := hmust.exchange_of_le hm
  rw [← swap_eq mode hadmits] at hok hcapacities hexhausted
  have hlive : (session.serve mode (.swap bytes retain freed size)).live =
      ⟨(session.filled bytes).bytes.drop retain, size⟩ := by
    rw [serve, hok]
    rfl
  rw [hlive]
  exact ⟨hok, rfl, hcapacities, hexhausted⟩

/-- A swap that returns adds what stays behind to a block that had nothing. -/
theorem holdings_serve (hsound : session.pool.Sound) {bytes : List UInt8}
    {retain freed size : Nat} (hadmits : session.Admits (.swap bytes retain freed size))
    {buffer : Buffer}
    (hok : (session.pool.swap mode (session.filled bytes) retain freed size).result = .ok buffer) :
    ∃ index ∉ session.pool.holdings.map Holding.block,
      (session.serve mode (.swap bytes retain freed size)).pool.holdings =
        session.pool.holdings ++ if freed < retain then [⟨index, retain - freed⟩] else [] := by
  rw [serve]
  rw [swap_eq mode hadmits] at hok ⊢
  obtain ⟨-, -, hretain, hdrained, -⟩ := hadmits
  exact hsound.holdings_exchange hretain hdrained hok

/-- **Every request keeps the balance**, and no size is allocated more often than there
are buffers in use at once. -/
theorem Accounts.serve (h : session.Accounts first asked allocated most) {request : Request}
    (hadmits : session.Admits request)
    (hsize : ∀ size ∈ request.size?, size ≤ Word.maxAllocation) :
    ∃ allocated, (session.serve mode request).Accounts first (asked ++ sizes [request]) allocated
      (max most (session.serve mode request).pool.inUse) := by
  have hrepeats (size : Nat) : allocated.count size ≤
      max most (session.serve mode request).pool.inUse :=
    Nat.le_trans (h.repeats size) (Nat.le_max_left ..)
  have hasked : allocated ⊆ asked ++ sizes [request] :=
    List.subset_append_of_subset_left _ h.asked
  cases request with
  | free n =>
    obtain ⟨hcount, hlive, hcapacities⟩ := serve_free mode session n
    refine ⟨allocated, (h.sound.frees n).sound, ?_, hcount.trans h.count_eq, hasked, hrepeats⟩
    rw [hlive, hcapacities]
    exact h.balance
  | swap bytes retain freed size =>
    have hsound : (session.serve mode (.swap bytes retain freed size)).pool.Sound := by
      rw [Session.serve, swap_eq mode hadmits]
      obtain ⟨-, -, hretain, -⟩ := hadmits
      exact h.sound.exchange hretain freed size
    by_cases hmust : session.pool.MustAllocate (session.filled bytes) retain freed size
    · obtain ⟨hcount, hmade⟩ := serve_of_mustAllocate mode hadmits hmust
      obtain ⟨-, hlive, hcapacities, hexhausted⟩ := hmade (hsize size rfl)
      have hbalance : ((session.serve mode (.swap bytes retain freed size)).live.capacity ::
          (session.serve mode (.swap bytes retain freed size)).pool.capacities).Perm
            (first :: size :: allocated) := by
        rw [hlive, hcapacities]
        have hold := (List.perm_append_singleton _ _).trans h.balance
        exact (hold.cons size).trans (List.Perm.swap first size allocated)
      refine ⟨size :: allocated, hsound, hbalance, ?_, ?_, fun other => ?_⟩
      · rw [hcount, h.count_eq, List.length_cons]
      · refine List.cons_subset.2 ⟨?_, hasked⟩
        exact List.mem_append_right _ List.mem_cons_self
      · by_cases hother : other = size
        · -- all buffers of the size are in use, so there are no more than these
          subst hother
          exact Nat.le_trans (count_le_inUse hbalance hlive hexhausted) (Nat.le_max_right ..)
        · rw [List.count_cons_of_ne (Ne.symm hother)]
          exact hrepeats other
    · obtain ⟨-, hcount, hperm⟩ := serve_of_not_mustAllocate mode hadmits hmust
      exact ⟨allocated, hsound, hperm.trans h.balance, hcount.trans h.count_eq, hasked, hrepeats⟩

/-! ## Sessions -/

theorem accounts_after (mode : Mode) (first : Buffer) {requests : List Request}
    (hadmits : (start first).AdmitsAll mode requests)
    (hsizes : ∀ size ∈ sizes requests, size ≤ Word.maxAllocation) :
    ∃ allocated, ((start first).after mode requests).Accounts first.capacity (sizes requests)
      allocated ((start first).peak mode requests) := by
  induction requests using List.reverseRecOn with
  | nil => exact ⟨[], accounts_start first⟩
  | append_singleton requests request ih =>
    have happend : sizes (requests ++ [request]) = sizes requests ++ sizes [request] :=
      List.filterMap_append
    obtain ⟨hearly, hlast⟩ := admitsAll_concat.1 hadmits
    rw [happend, List.forall_mem_append] at hsizes
    obtain ⟨allocated, haccounts⟩ := ih hearly hsizes.1
    rw [after_concat, peak_concat, happend]
    refine haccounts.serve hlast fun size hs => hsizes.2 size ?_
    exact List.mem_filterMap.2 ⟨request, List.mem_singleton_self _, hs⟩

/-- What is too small is every block without a holding. -/
theorem mustAllocate_iff (hsound : session.pool.Sound) (bytes : List UInt8)
    {retain freed size : Nat} :
    session.pool.MustAllocate (session.filled bytes) retain freed size ↔
      (freed < retain ∨ session.live.capacity < size) ∧
        ∀ index < session.pool.blocks.length,
          index ∉ session.pool.holdings.map Holding.block →
            session.pool.capacityAt index < size := by
  refine and_congr_right fun _ => exhausted_iff.trans (forall₂_congr fun index _ => ?_)
  rw [← hsound.activeAt_iff, Bool.not_eq_true]

/-- **The footprint is bounded by the buffers in use at once.** As long as no size asked
for is larger than any buffer can be, there is a block for every allocation, and there
are no more of them than the most buffers that were in use at once, for each size asked
for. The next swap allocates just if it can neither slide the token down nor use a block
again whose parked bytes are all freed, oldest first. If it does not, and whenever bytes
are freed, the buffers stay the same ones. -/
theorem footprint_le (mode : Mode) (first : Buffer) {requests : List Request}
    (hadmits : (start first).AdmitsAll mode requests)
    (hsizes : ∀ size ∈ sizes requests, size ≤ Word.maxAllocation) :
    let here := (start first).after mode requests
    let buffers (session : Session) := session.live.capacity :: session.pool.capacities
    (here.pool.allocations = here.pool.blocks.length ∧
      here.pool.allocations ≤
        (start first).peak mode requests * (sizes requests).toFinset.card) ∧
    (∀ bytes retain freed size, here.Admits (.swap bytes retain freed size) →
      let there := here.serve mode (.swap bytes retain freed size)
      (there.pool.allocations = here.pool.allocations + 1 ↔
        (freed < retain ∨ here.live.capacity < size) ∧
          ∀ index < here.pool.blocks.length, index ∉ here.pool.holdings.map Holding.block →
            here.pool.capacityAt index < size) ∧
      (there.pool.allocations ≠ here.pool.allocations + 1 →
        there.pool.allocations = here.pool.allocations ∧ (buffers there).Perm (buffers here)) ∧
      (size ≤ Word.maxAllocation ∨ there.pool.allocations = here.pool.allocations →
        (here.pool.swap mode (here.filled bytes) retain freed size).result = .ok there.live ∧
          ∃ index ∉ here.pool.holdings.map Holding.block,
            there.pool.holdings =
              here.pool.holdings ++ if freed < retain then [⟨index, retain - freed⟩] else [])) ∧
    ∀ n,
      let there := here.serve mode (.free n)
      there.pool.allocations = here.pool.allocations ∧ buffers there = buffers here ∧
        there.pool.holdings = discharge n here.pool.holdings := by
  intro here buffers
  obtain ⟨allocated, haccounts⟩ := accounts_after mode first hadmits hsizes
  have hsound : here.pool.Sound := haccounts.sound
  refine ⟨⟨haccounts.allocations_eq, haccounts.allocations_le⟩, ?_, fun n => ?_⟩
  · intro bytes retain freed size hnext there
    rw [← mustAllocate_iff hsound bytes]
    by_cases hmust : here.pool.MustAllocate (here.filled bytes) retain freed size
    · obtain ⟨hcount, hmade⟩ := serve_of_mustAllocate mode hnext hmust
      refine ⟨⟨fun _ => hmust, fun _ => hcount⟩, fun hne => absurd hcount hne, fun hreturns => ?_⟩
      have hm : size ≤ Word.maxAllocation := hreturns.resolve_right (by rw [hcount]; omega)
      exact ⟨(hmade hm).1, holdings_serve hsound hnext (hmade hm).1⟩
    · obtain ⟨hok, hcount, hperm⟩ := serve_of_not_mustAllocate mode hnext hmust
      refine ⟨⟨fun hone => ?_, fun h => absurd h hmust⟩, fun _ => ⟨hcount, hperm⟩,
        fun _ => ⟨hok, holdings_serve hsound hnext hok⟩⟩
      rw [hcount] at hone
      omega
  · obtain ⟨hcount, hlive, hcapacities⟩ := serve_free mode here n
    refine ⟨hcount, ?_, hsound.holdings_free n⟩
    simp only [buffers, hlive, hcapacities]

/-- Two sizes are asked for and two buffers in use at most: a block that is drained is too
small for the second swap, which allocates, and is used again by the third. -/
theorem footprint_le_reused :
    let first : Buffer := ⟨[1, 2, 3], 3⟩
    let requests : List Request := [.swap [1, 2, 3] 2 0 3, .free 2, .swap [3, 4, 5] 1 0 6]
    let here := (start first).after .checked requests
    let there := here.serve .checked (.swap [4, 5, 6, 7] 2 0 3)
    here.pool.allocations = here.pool.blocks.length ∧
      here.pool.allocations ≤
        (start first).peak .checked requests * (sizes requests).toFinset.card ∧
      (start first).peak .checked requests = 2 ∧ here.pool.allocations = 2 ∧
      (there.live.capacity :: there.pool.capacities).Perm
        (here.live.capacity :: here.pool.capacities) := by
  intro first requests here there
  obtain ⟨hbound, hswap, -⟩ :=
    footprint_le .checked first (by decide : (start first).AdmitsAll .checked requests)
      (by decide +kernel)
  have hnext := (hswap [4, 5, 6, 7] 2 0 3 (by decide +kernel)).2.1 (by decide +kernel)
  exact ⟨hbound.1, hbound.2, by decide +kernel, by decide +kernel, hnext.2⟩

/-- **The count runs ahead of the blocks** once a swap that asks for a larger buffer than
any can be is stopped. -/
theorem allocations_ahead_of_blocks :
    ¬∀ (mode : Mode) (first : Buffer) (requests : List Request),
      (start first).AdmitsAll mode requests →
        ((start first).after mode requests).pool.allocations =
          ((start first).after mode requests).pool.blocks.length := by
  intro h
  have hequal := h .checked ⟨[97, 98, 99], 3⟩ [.swap [97, 98, 99] 1 0 (2 ^ 63)] (by decide)
  exact absurd hequal (by decide)

end Session
end Lookahead.Pool
