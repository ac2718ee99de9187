import Lookahead.Proofs.Pool.Queue
import Mathlib.Algebra.Order.Ring.Nat

/-!
# Which block holds how much

Seen from the blocks, the queue of parked bytes is a list of holdings: the blocks of
the chain, oldest first, each with the number of its bytes that are not freed. Freeing
discharges holdings from the oldest on, and a swap adds one for what stays behind, if
not all of it is freed. A block is in use just if it has a holding.

## Main definitions

* `Pool.Holding` and `Pool.holdings`.
* `Pool.discharge`: what is left of holdings after freeing.

## Main statements

* `Pool.Sound.holdings_free` and `Pool.Sound.holdings_exchange`: what the operations do
  to the holdings.
* `Pool.Sound.sum_holdings`: the holdings add up to the parked bytes.
-/
namespace Lookahead.Pool

/-- A block and the number of its bytes that are not freed. -/
structure Holding where
  block : Nat
  unfreed : Nat
deriving DecidableEq

/-- The holdings of the blocks listed, of the first of which some bytes are freed. -/
def holdingsAlong (pool : Pool) : List Nat → List Holding
  | [] => []
  | oldest :: newer =>
    ⟨oldest, pool.lengthAt oldest - pool.offset⟩ ::
      newer.map fun index => ⟨index, pool.lengthAt index⟩

/-- The holdings of the blocks of the chain, oldest first. -/
def holdings (pool : Pool) : List Holding := pool.holdingsAlong pool.chain

/-- What is left of holdings after `n` bytes were freed, those of the oldest first. -/
def discharge : Nat → List Holding → List Holding
  | _, [] => []
  | n, holding :: newer =>
    if n < holding.unfreed then { holding with unfreed := holding.unfreed - n } :: newer
    else discharge (n - holding.unfreed) newer

/-- A property of holdings, the oldest of which may have less than it had. -/
theorem forall_tail_discharge {kind : Holding → Prop} {holdings : List Holding}
    (h : ∀ holding ∈ holdings.tail, kind holding) (n : Nat) :
    ∀ holding ∈ (discharge n holdings).tail, kind holding := by
  induction holdings generalizing n with
  | nil => exact List.forall_mem_nil _
  | cons oldest newer ih =>
    rw [discharge]
    split
    · exact h
    · exact ih (fun holding hm => h holding (List.mem_of_mem_tail hm)) _

variable {pool : Pool}

theorem Linked.holdings_eq {indices : List Nat} (h : pool.Linked indices) :
    pool.holdings = pool.holdingsAlong indices := by rw [holdings, h.chain_eq]

@[simp] theorem map_block_holdings (pool : Pool) :
    pool.holdings.map Holding.block = pool.chain := by
  rw [holdings]
  cases pool.chain with
  | nil => rfl
  | cons oldest newer => simp [holdingsAlong, Function.comp_def]

/-- A block is in use just if it has a holding. -/
theorem Sound.activeAt_iff (h : pool.Sound) (index : Nat) :
    pool.activeAt index = true ↔ index ∈ pool.holdings.map Holding.block := by
  rw [map_block_holdings]
  exact h.active_iff index

/-- Every holding is of a byte at least. -/
theorem Sound.unfreed_pos (h : pool.Sound) : ∀ holding ∈ pool.holdings, 0 < holding.unfreed := by
  have hholds := h.holds
  have hoffset := h.offset_lt
  rw [holdings]
  cases hc : pool.chain with
  | nil => exact List.forall_mem_nil _
  | cons oldest newer =>
    rw [hc] at hholds hoffset
    rw [holdingsAlong, List.forall_mem_cons, List.forall_mem_map]
    exact ⟨Nat.sub_pos_of_lt (hoffset oldest rfl), fun index hm => hholds index (by simp [hm])⟩

/-- The holdings add up to the parked bytes. -/
theorem Sound.sum_holdings (h : pool.Sound) :
    (pool.holdings.map Holding.unfreed).sum = pool.outstanding := by
  have hlinked := h.toLinked
  rw [← length_parked, holdings]
  cases hc : pool.chain with
  | nil => simp [parked, hc, holdingsAlong]
  | cons oldest newer =>
    rw [hc] at hlinked
    rw [hlinked.parked_cons, List.length_append, length_left, holdingsAlong, List.length_flatMap]
    simp [Function.comp_def, lengthAt]

/-! ## Freeing -/

/-- Behind a retired tail nothing is freed. -/
theorem holdingsAlong_retire (pool : Pool) (index : Nat) (newer : List Nat) :
    (pool.retire index).holdingsAlong newer =
      newer.map fun index => ⟨index, pool.lengthAt index⟩ := by
  cases newer with
  | nil => rfl
  | cons next newer =>
    have hz : (pool.retire index).offset = 0 := rfl
    simp [holdingsAlong, hz]

theorem Linked.holdings_freeAlong {indices : List Nat} (h : pool.Linked indices) (n : Nat) :
    (pool.freeAlong n indices).pool.holdings = discharge n (pool.holdingsAlong indices) := by
  induction indices generalizing pool n with
  | nil => exact h.reset.holdings_eq
  | cons index newer ih =>
    rw [freeAlong, holdingsAlong, discharge]
    split
    · rename_i hn
      rw [(h.advance hn).holdings_eq, Nat.sub_sub]
      rfl
    · rw [← holdingsAlong_retire]
      exact ih h.retire _

/-- Freeing discharges the oldest holdings first. -/
theorem Sound.holdings_free (h : pool.Sound) (n : Nat) :
    (pool.free n).pool.holdings = discharge n pool.holdings := h.toLinked.holdings_freeAlong n

/-! ## Swaps -/

/-- The holdings depend on the blocks listed and on the offset in the first. -/
theorem holdingsAlong_congr {p q : Pool} {indices : List Nat}
    (hlength : ∀ index ∈ indices, q.lengthAt index = p.lengthAt index)
    (hoffset : indices ≠ [] → q.offset = p.offset) :
    q.holdingsAlong indices = p.holdingsAlong indices := by
  cases indices with
  | nil => rfl
  | cons oldest newer =>
    have hnewer : newer.map (fun index => (⟨index, q.lengthAt index⟩ : Holding)) =
        newer.map fun index => ⟨index, p.lengthAt index⟩ :=
      List.map_congr_left fun index hm => by rw [hlength index (by simp [hm])]
    rw [holdingsAlong, holdingsAlong, hlength oldest (by simp), hoffset (by simp), hnewer]

theorem holdingsAlong_concat (pool : Pool) (indices : List Nat) (index : Nat) :
    pool.holdingsAlong (indices ++ [index]) = pool.holdingsAlong indices ++
      [⟨index, pool.lengthAt index - if indices = [] then pool.offset else 0⟩] := by
  cases indices with
  | nil => simp [holdingsAlong]
  | cons oldest newer => simp [holdingsAlong]

/-- **A swap adds a holding** for the bytes that stay behind, unless all are freed. It is
that of a block which had none. -/
theorem Sound.holdings_exchange (h : pool.Sound) {old buffer : Buffer} {retain freed size : Nat}
    (hr : retain ≤ old.length) (hd : freed = 0 ∨ pool.isDrained = true)
    (hok : (pool.exchange old retain freed size).result = .ok buffer) :
    ∃ index ∉ pool.holdings.map Holding.block,
      (pool.exchange old retain freed size).pool.holdings =
        pool.holdings ++ if freed < retain then [⟨index, retain - freed⟩] else [] := by
  have hoffset := h.offset_exchange hok
  have hlen : (old.take retain).length = retain := by simp [hr]
  rw [map_block_holdings]
  rcases h.exchange_cases old retain freed size with
    ⟨hs, hp⟩ | ⟨index, stored, hi, hs, hp⟩ | ⟨herr, -⟩
  · refine ⟨pool.blocks.length, h.length_not_mem, ?_⟩
    rw [hp, if_neg (Nat.not_lt.2 hs), List.append_nil]
  · refine ⟨index, hi, ?_⟩
    have hne : ∀ i ∈ pool.chain, i ≠ index := fun i hm he => hi (he ▸ hm)
    by_cases hf : freed < retain
    · rw [hp, if_pos hf] at hoffset ⊢
      have hlinked : (stored.link index freed).Linked (pool.chain ++ [index]) :=
        hs.linked_link h hi rfl (by simpa using hf) (by simpa [hlen] using hf)
      rw [hlinked.holdings_eq, holdingsAlong_concat, lengthAt_link, hs.lengthAt_index, hlen,
        hoffset, if_pos hf, holdings]
      refine congrArg₂ (· ++ ·) (holdingsAlong_congr (fun i hm => ?_) fun hc => ?_) ?_
      · rw [lengthAt_link, hs.lengthAt_ne (hne i hm)]
      · rw [hoffset, if_neg]
        exact fun hx => hc (h.isDrained_iff.1 hx.2)
      · by_cases hc : pool.chain = []
        · rw [if_pos hc, if_pos ⟨hf, h.isDrained_iff.2 hc⟩]
        · have hz := hd.resolve_right fun hx => hc (h.isDrained_iff.1 hx)
          rw [if_neg hc, hz]
    · rw [hp, if_neg hf, if_neg hf, List.append_nil,
        (hs.linked h.toLinked hi (by simpa using hf) rfl).holdings_eq]
      exact holdingsAlong_congr (fun i hm => hs.lengthAt_ne (hne i hm)) fun _ => hs.offset_eq
  · simp [herr] at hok

end Lookahead.Pool
