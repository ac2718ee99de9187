import Lookahead.Proofs.Pool.Chain

/-!
# The pool as a queue of bytes

What a pool stands for is the queue of its parked bytes. A swap appends the bytes
that stay behind, less those that are freed already, whichever way it finds the
room; freeing removes bytes at the other end, and what it cannot remove is the
spill.

## Main statements

* `Sound.exchange` and `Sound.parked_exchange`: a swap keeps the chain
  well-formed and appends to the queue.
* `Sound.frees`: so does freeing, which removes.
-/
namespace Lookahead.Pool

/-! ## Swaps -/

section
variable {pool : Pool} {size : Nat}

theorem Sound.reusable?_not_mem (h : pool.Sound) {index : Nat}
    (hi : pool.reusable? size = some index) : index ∉ pool.chain := by
  obtain ⟨hlt, hb, -⟩ := List.findIdx?_eq_some_iff_getElem.1 hi
  intro hm
  have ha := (h.active_iff index).2 hm
  simp only [activeAt, List.getElem?_eq_getElem hlt, Option.elim_some] at ha
  simp [ha] at hb

theorem Sound.length_not_mem (h : pool.Sound) : pool.blocks.length ∉ pool.chain := fun hm =>
  Nat.lt_irrefl _ (h.leads.lt_length _ hm)

/-- A swap that is stopped leaves the blocks and the links as they are. It is counted as an
allocation if it was stopped for want of storage. -/
theorem swap_of_error {mode : Mode} {old : Buffer} {retain freed : Nat} {fault : Fault}
    (h : (pool.swap mode old retain freed size).result = .error fault) :
    fault ≠ .capacityOverflow ∧ (pool.swap mode old retain freed size).pool = pool ∨
      fault = .capacityOverflow ∧
        (pool.swap mode old retain freed size).pool = pool.countAllocation := by
  revert h
  simp only [swap, exchange]
  split
  · intro h
    cases Except.error.inj h
    exact .inl ⟨by decide, rfl⟩
  split
  · intro h
    cases Except.error.inj h
    exact .inl ⟨by decide, rfl⟩
  split
  · simp
  split
  · simp
  split
  · simp
  · exact fun h => .inr ⟨(Except.error.inj h).symm, rfl⟩

/-- A swap computes no sum that could overflow. -/
theorem ne_sumOverflow_of_swap {mode : Mode} {old : Buffer} {retain freed : Nat} {fault : Fault}
    (h : (pool.swap mode old retain freed size).result = .error fault) :
    fault ≠ .sumOverflow := by
  rintro rfl
  revert h
  simp only [swap, exchange]
  repeat' split
  all_goals simp only [reduceCtorEq, Except.error.injEq, imp_self]

/-- The three ways a swap can change a pool. -/
theorem Sound.exchange_cases (h : pool.Sound) (old : Buffer) (retain freed size : Nat) :
    (retain ≤ freed ∧ (pool.exchange old retain freed size).pool = pool) ∨
    (∃ index stored, index ∉ pool.chain ∧
      pool.Stores stored index { buffer := old.take retain, active := freed < retain } ∧
      (pool.exchange old retain freed size).pool =
        if freed < retain then stored.link index freed else stored) ∨
    ((pool.exchange old retain freed size).result = .error .capacityOverflow ∧
      (pool.exchange old retain freed size).pool = pool.countAllocation) := by
  by_cases hs : retain ≤ freed ∧ size ≤ old.capacity
  · exact .inl ⟨hs.1, by rw [exchange, if_pos hs]⟩
  right
  cases hr : pool.reusable? size with
  | some index =>
    left
    have hlt : index < pool.blocks.length := (List.findIdx?_eq_some_iff_getElem.1 hr).1
    refine ⟨index, _, h.reusable?_not_mem hr, stores_replace hlt, ?_⟩
    simp only [exchange, if_neg hs, hr]
  | none =>
    by_cases hm : size ≤ Word.maxAllocation
    · left
      refine ⟨_, _, h.length_not_mem, stores_push pool _, ?_⟩
      simp only [exchange, if_neg hs, hr, if_pos hm]
    · right
      simp only [exchange, if_neg hs, hr, if_neg hm, and_self]

theorem Stores.linkedBytes_link {stored : Pool} {index freed : Nat} {block : Block}
    (h : pool.Stores stored index block) (hp : pool.Sound) (hi : index ∉ pool.chain)
    (hn : block.next = none) (ha : block.active = true) (hf : freed < block.buffer.length) :
    (stored.link index freed).linkedBytes = pool.linkedBytes ++ block.buffer.bytes := by
  have hne : ∀ i ∈ pool.chain, i ≠ index := fun i hm he => hi (he ▸ hm)
  have hold : pool.chain.flatMap (stored.link index freed).bytesAt = pool.linkedBytes :=
    List.flatMap_congr fun i hm => by rw [bytesAt_link, h.bytesAt_ne (hne i hm)]
  have hnew : (stored.link index freed).bytesAt index = block.buffer.bytes := by
    rw [bytesAt_link, bytesAt, h.at_index]
    rfl
  rw [linkedBytes, (h.linked_link hp hi hn ha hf).chain_eq, List.flatMap_append, hold]
  simp [hnew]

theorem Stores.linkedBytes_eq {stored : Pool} {index : Nat} {block : Block}
    (h : pool.Stores stored index block) (hp : pool.Sound) (hi : index ∉ pool.chain)
    (ha : block.active = false) (hn : block.next = none) :
    stored.linkedBytes = pool.linkedBytes := by
  rw [linkedBytes, (h.linked hp.toLinked hi ha hn).chain_eq]
  exact List.flatMap_congr fun i hm => h.bytesAt_ne fun he => hi (he ▸ hm)

theorem Sound.linked_countAllocation (h : pool.Sound) :
    pool.countAllocation.Linked pool.chain :=
  { h.toLinked with leads := h.leads.congr h.leads.lt_length fun _ _ => rfl }

theorem Sound.countAllocation (h : pool.Sound) : pool.countAllocation.Sound :=
  h.linked_countAllocation.sound h.head_nil

theorem Sound.linkedBytes_countAllocation (h : pool.Sound) :
    pool.countAllocation.linkedBytes = pool.linkedBytes := by
  rw [linkedBytes, h.linked_countAllocation.chain_eq]
  rfl

theorem Sound.outstanding_countAllocation (h : pool.Sound) :
    pool.countAllocation.outstanding = pool.outstanding := by
  rw [outstanding, h.linked_countAllocation.chain_eq]
  rfl

variable {old buffer : Buffer} {retain freed : Nat}

theorem Sound.exchange (h : pool.Sound) (hr : retain ≤ old.length) (freed size : Nat) :
    (pool.exchange old retain freed size).pool.Sound := by
  have hlen : (old.take retain).length = retain := by simp [hr]
  rcases h.exchange_cases old retain freed size with ⟨-, hp⟩ | ⟨index, stored, hi, hs, hp⟩ | ⟨-, hp⟩
  · rw [hp]
    exact h
  · rw [hp]
    split
    · rename_i hf
      have hl : (stored.link index freed).Linked (pool.chain ++ [index]) :=
        hs.linked_link h hi rfl (by simpa using hf) (by simpa [hlen] using hf)
      exact hl.sound (by simp)
    · rename_i hf
      have hl := hs.linked h.toLinked hi (by simpa using hf) rfl
      exact hl.sound fun hc => hs.head_eq ▸ h.head_nil hc
  · rw [hp]
    exact h.countAllocation

/-- What stays behind is appended to the chain, unless all of it is freed. -/
theorem Sound.linkedBytes_exchange (h : pool.Sound) (hr : retain ≤ old.length)
    (hok : (pool.exchange old retain freed size).result = .ok buffer) :
    (pool.exchange old retain freed size).pool.linkedBytes =
      pool.linkedBytes ++ if freed < retain then old.bytes.take retain else [] := by
  have hlen : (old.take retain).length = retain := by simp [hr]
  rcases h.exchange_cases old retain freed size with
    ⟨hs, hp⟩ | ⟨index, stored, hi, hs, hp⟩ | ⟨herr, -⟩
  · rw [hp, if_neg (Nat.not_lt.2 hs), List.append_nil]
  · rw [hp]
    split
    · rename_i hf
      exact hs.linkedBytes_link h hi rfl (by simpa using hf) (by simpa [hlen] using hf)
    · rename_i hf
      rw [hs.linkedBytes_eq h hi (by simpa using hf) rfl, List.append_nil]
  · simp [herr] at hok

theorem Sound.offset_exchange (h : pool.Sound)
    (hok : (pool.exchange old retain freed size).result = .ok buffer) :
    (pool.exchange old retain freed size).pool.offset =
      if freed < retain ∧ pool.isDrained = true then freed else pool.offset := by
  rcases h.exchange_cases old retain freed size with
    ⟨hs, hp⟩ | ⟨index, stored, -, hs, hp⟩ | ⟨herr, -⟩
  · rw [hp, if_neg fun hf => Nat.not_lt.2 hs hf.1]
  · have hd : stored.isDrained = pool.isDrained := by rw [isDrained, isDrained, hs.tail_eq]
    rw [hp]
    by_cases hf : freed < retain <;> simp [hf, link, hd, hs.offset_eq]
  · simp [herr] at hok

/-- A swap that parks nothing leaves the queue empty or not, as it is. -/
theorem Sound.isDrained_exchange (h : pool.Sound) (hf : retain ≤ freed) :
    (pool.exchange old retain freed size).pool.isDrained = pool.isDrained := by
  rcases h.exchange_cases old retain freed size with ⟨-, hp⟩ | ⟨index, stored, -, hs, hp⟩ | ⟨-, hp⟩
  · rw [hp]
  · rw [hp, if_neg (Nat.not_lt.2 hf), isDrained, isDrained, hs.tail_eq]
  · rw [hp]
    rfl

/-- A swap appends the bytes that stay behind and are not freed. -/
theorem Sound.parked_exchange (h : pool.Sound) (hf : freed ≤ retain) (hr : retain ≤ old.length)
    (hd : freed = 0 ∨ pool.isDrained = true)
    (hok : (pool.exchange old retain freed size).result = .ok buffer) :
    (pool.exchange old retain freed size).pool.parked =
      pool.parked ++ (old.bytes.take retain).drop freed := by
  have hlen : (old.bytes.take retain).length = retain := List.length_take_of_le hr
  rw [parked_eq_drop, parked_eq_drop, h.linkedBytes_exchange hr hok, h.offset_exchange hok]
  rcases Nat.lt_or_ge freed retain with hlt | hge
  · cases hdr : pool.isDrained with
    | true =>
      have hc := h.isDrained_iff.1 hdr
      simp [hlt, h.linkedBytes_eq_nil_iff.2 hc, h.offset_nil hc]
    | false =>
      have hz : freed = 0 := hd.resolve_right (by simp [hdr])
      rw [if_pos hlt, if_neg (by simp), List.drop_append_of_le_length h.offset_le, hz,
        List.drop_zero]
  · have hnil : (old.bytes.take retain).drop freed = [] := List.drop_eq_nil_of_le (by omega)
    rw [if_neg (Nat.not_lt.2 hge), if_neg fun hlt => Nat.not_lt.2 hge hlt.1, hnil,
      List.append_nil, List.append_nil]

end

/-! ## Freeing -/

variable {pool : Pool}

theorem Linked.parked_eq {indices : List Nat} (h : pool.Linked indices) :
    pool.parked = (indices.flatMap pool.bytesAt).drop pool.offset := by
  rw [parked, h.chain_eq]

/-- When the last block is retired the head is all that is left to reset. -/
theorem Linked.reset (h : pool.Linked []) : { pool with head := none : Pool }.Linked [] :=
  { h with newest := by simp }

/-- Freeing less than the tail still holds moves the offset only. -/
theorem Linked.advance {index n : Nat} {newer : List Nat} (h : pool.Linked (index :: newer))
    (hn : n < pool.lengthAt index - pool.offset) :
    { pool with offset := pool.offset + n : Pool }.Linked (index :: newer) :=
  { h with
    leads := h.leads.congr h.leads.lt_length fun _ _ => rfl
    offset_lt := by
      intro oldest ho
      cases Option.some.inj (ho : some index = some oldest)
      change pool.offset + n < pool.lengthAt index
      omega
    offset_nil := by simp }

/-- A release that frees `n` bytes of a pool: they leave the front of the queue,
and the spill is what the queue does not have. -/
structure Frees (pool : Pool) (n : Nat) (release : Release) : Prop where
  sound : release.pool.Sound
  parked_eq : release.pool.parked = pool.parked.drop n
  spill_eq : release.spill = n - pool.parked.length
  suffix : release.pool.linkedBytes <:+ pool.linkedBytes

/-- The queue of a chain that is not empty begins with what is left of the tail. -/
theorem Linked.parked_cons {index : Nat} {newer : List Nat} (h : pool.Linked (index :: newer)) :
    pool.parked = (pool.bytesAt index).drop pool.offset ++ newer.flatMap pool.bytesAt := by
  have hlt : pool.offset < pool.lengthAt index := h.offset_lt index (by simp)
  rw [h.parked_eq, List.flatMap_cons, List.drop_append_of_le_length (Nat.le_of_lt hlt)]

theorem length_left (pool : Pool) (index : Nat) :
    ((pool.bytesAt index).drop pool.offset).length = pool.lengthAt index - pool.offset :=
  List.length_drop

/-- Of an empty queue nothing is freed. -/
theorem Linked.frees_nil (h : pool.Linked []) (n : Nat) :
    pool.Frees n { spill := n, pool := { pool with head := none } } := by
  have hnil : pool.parked = [] := by simp [h.parked_eq]
  constructor
  case sound => exact h.reset.sound fun _ => rfl
  case parked_eq =>
    rw [hnil, h.reset.parked_eq]
    simp
  case spill_eq => simp [hnil]
  case suffix =>
    rw [linkedBytes, h.reset.chain_eq]
    exact List.nil_suffix

/-- Less than the tail holds is freed of the tail. -/
theorem Linked.frees_tail {index n : Nat} {newer : List Nat} (h : pool.Linked (index :: newer))
    (hn : n < pool.lengthAt index - pool.offset) :
    pool.Frees n { spill := 0, pool := { pool with offset := pool.offset + n } } := by
  have hl := h.advance hn
  constructor
  case sound => exact hl.sound (by simp)
  case parked_eq =>
    rw [hl.parked_eq, h.parked_eq, List.drop_drop]
    rfl
  case spill_eq =>
    rw [h.parked_cons, List.length_append, length_left]
    change 0 = _
    omega
  case suffix =>
    rw [linkedBytes, linkedBytes, hl.chain_eq, h.chain_eq]
    exact List.suffix_rfl

/-- What exceeds the tail is freed of the blocks behind it. -/
theorem Linked.frees_retire {index n : Nat} {newer : List Nat} (h : pool.Linked (index :: newer))
    (hn : pool.lengthAt index - pool.offset ≤ n) {later : Release}
    (hlater : (pool.retire index).Frees (n - (pool.lengthAt index - pool.offset)) later)
    (log : List Event) : pool.Frees n { later with log } := by
  have hrest : newer.flatMap (pool.retire index).bytesAt = newer.flatMap pool.bytesAt :=
    List.flatMap_congr fun i _ => bytesAt_retire pool index i
  have hparked : (pool.retire index).parked = newer.flatMap pool.bytesAt := by
    rw [h.retire.parked_eq, hrest]
    rfl
  constructor
  case sound => exact hlater.sound
  case parked_eq =>
    rw [h.parked_cons, List.drop_append, length_left,
      List.drop_eq_nil_of_le (length_left pool index ▸ hn), List.nil_append, ← hparked]
    exact hlater.parked_eq
  case spill_eq =>
    rw [h.parked_cons, List.length_append, length_left, ← hparked, ← Nat.sub_sub]
    exact hlater.spill_eq
  case suffix =>
    refine hlater.suffix.trans ?_
    rw [linkedBytes, linkedBytes, h.retire.chain_eq, h.chain_eq, hrest, List.flatMap_cons]
    exact List.suffix_append ..

theorem Linked.frees_freeAlong {indices : List Nat} (h : pool.Linked indices) (n : Nat) :
    pool.Frees n (pool.freeAlong n indices) := by
  induction indices generalizing pool n with
  | nil => exact h.frees_nil n
  | cons index newer ih =>
    rw [freeAlong]
    split
    · rename_i hn
      exact h.frees_tail hn
    · rename_i hn
      exact h.frees_retire (Nat.le_of_not_lt hn) (ih h.retire _) _

/-- Freeing takes bytes off the front of the queue. -/
theorem Sound.frees (h : pool.Sound) (n : Nat) : pool.Frees n (pool.free n) :=
  h.toLinked.frees_freeAlong n

theorem Sound.outstanding_free (h : pool.Sound) (n : Nat) :
    (pool.free n).pool.outstanding = pool.outstanding - n := by
  rw [← length_parked, (h.frees n).parked_eq, List.length_drop, length_parked]

theorem Sound.spill_free (h : pool.Sound) (n : Nat) :
    (pool.free n).spill = n - pool.outstanding := by
  rw [(h.frees n).spill_eq, length_parked]

/-- The queue is empty just if the chain is. -/
theorem Sound.parked_eq_nil_iff (h : pool.Sound) :
    pool.parked = [] ↔ pool.isDrained = true := by
  rw [h.isDrained_iff]
  constructor
  · intro hp
    cases hc : pool.chain with
    | nil => rfl
    | cons oldest newer =>
      have hlt : pool.offset < pool.lengthAt oldest := h.offset_lt oldest (by simp [hc])
      have hlen := congrArg List.length hp
      rw [parked, hc, List.flatMap_cons, List.length_drop, List.length_append, ← lengthAt] at hlen
      simp at hlen
      omega
  · intro hc
    rw [parked_eq_drop, h.linkedBytes_eq_nil_iff.2 hc, List.drop_nil]

theorem Sound.outstanding_eq_zero (h : pool.Sound) (hd : pool.isDrained = true) :
    pool.outstanding = 0 := by
  rw [← length_parked, h.parked_eq_nil_iff.2 hd, List.length_nil]

end Lookahead.Pool
