import Lookahead.Pool.Free
import Lookahead.Pool.Swap
import Mathlib.Data.List.Basic

/-!
# The chain of a pool

The links of a pool are data, and nothing in the type of a pool says that they
make a chain. `Pool.Linked` says so for a given list of indices, and
`Pool.Sound` for the list that following the links yields. A block is then
active just if it is on the chain, every block of the chain still has a byte that
is not freed, and the links of all other blocks are empty.

The operations change a pool in three ways only: the oldest block is retired, a
block off the chain is stored anew, and such a block is linked behind the newest.
There is one lemma for each.

## Main definitions

* `Pool.Leads`: which blocks are met from one place to another.
* `Pool.Linked` and `Pool.Sound`: well-formed chains and pools.
* `Pool.Stores`: one pool differs from another in one block.
* `Pool.linkedBytes`: all bytes of the chain, freed ones of the tail included.
-/
namespace Lookahead.Pool

/-- The links lead from a place past the listed blocks to another place. -/
def Leads (pool : Pool) : Option Nat → List Nat → Option Nat → Prop
  | place, [], stop => place = stop
  | place, index :: rest, stop =>
    place = some index ∧ index < pool.blocks.length ∧
      pool.Leads (pool.nextAt index) rest stop

/-- Whether a block holds bytes that are not freed. -/
def activeAt (pool : Pool) (index : Nat) : Bool := pool.blocks[index]?.elim false (·.active)

/-- The blocks listed, oldest first, make up the chain. While bytes are being
freed the head may point to a block that has just left an empty chain. -/
structure Linked (pool : Pool) (indices : List Nat) : Prop where
  leads : pool.Leads pool.tail indices none
  nodup : indices.Nodup
  newest : ∀ last ∈ indices.getLast?, pool.head = some last
  active_iff : ∀ index, pool.activeAt index = true ↔ index ∈ indices
  idle : ∀ index ∉ indices, pool.nextAt index = none
  holds : ∀ index ∈ indices, 0 < pool.lengthAt index
  offset_lt : ∀ oldest ∈ indices.head?, pool.offset < pool.lengthAt oldest
  offset_nil : indices = [] → pool.offset = 0

/-- The links of a pool make up a chain that ends at its head. -/
structure Sound (pool : Pool) : Prop extends Linked pool pool.chain where
  head_nil : pool.chain = [] → pool.head = none

/-- The bytes of the linked blocks, oldest first, whether freed or not. -/
def linkedBytes (pool : Pool) : List UInt8 := pool.chain.flatMap pool.bytesAt

theorem parked_eq_drop (pool : Pool) : pool.parked = pool.linkedBytes.drop pool.offset := rfl

theorem outstanding_eq (pool : Pool) :
    pool.outstanding = pool.linkedBytes.length - pool.offset := by
  rw [← length_parked, parked_eq_drop, List.length_drop]

/-! ## Following the links -/

theorem leads_append {pool : Pool} {place stop : Option Nat} {first last : List Nat} :
    pool.Leads place (first ++ last) stop ↔
      ∃ between, pool.Leads place first between ∧ pool.Leads between last stop := by
  induction first generalizing place with
  | nil => simp [Leads]
  | cons index rest ih =>
    simp only [List.cons_append, Leads, ih]
    constructor
    · rintro ⟨hp, hlt, between, hfirst, hlast⟩
      exact ⟨between, ⟨hp, hlt, hfirst⟩, hlast⟩
    · rintro ⟨between, ⟨hp, hlt, hfirst⟩, hlast⟩
      exact ⟨hp, hlt, between, hfirst, hlast⟩

theorem Leads.lt_length {pool : Pool} {place stop : Option Nat} {indices : List Nat}
    (h : pool.Leads place indices stop) : ∀ index ∈ indices, index < pool.blocks.length := by
  induction indices generalizing place with
  | nil => simp
  | cons index rest ih =>
    obtain ⟨-, hlt, hrest⟩ := h
    intro i hi
    rcases List.mem_cons.1 hi with rfl | hi
    · exact hlt
    · exact ih hrest i hi

/-- Only the links of the blocks passed matter. -/
theorem Leads.congr {p q : Pool} {place stop : Option Nat} {indices : List Nat}
    (h : p.Leads place indices stop)
    (hlt : ∀ index ∈ indices, index < q.blocks.length)
    (hnext : ∀ index ∈ indices, q.nextAt index = p.nextAt index) :
    q.Leads place indices stop := by
  induction indices generalizing place with
  | nil => exact h
  | cons index rest ih =>
    obtain ⟨hp, -, hrest⟩ := h
    refine ⟨hp, hlt index (by simp), ?_⟩
    rw [hnext index (by simp)]
    exact ih hrest (fun i hi => hlt i (by simp [hi])) (fun i hi => hnext i (by simp [hi]))

theorem Leads.head? {pool : Pool} {place : Option Nat} {indices : List Nat}
    (h : pool.Leads place indices none) : indices.head? = place := by
  cases indices with
  | nil => exact h.symm
  | cons index rest => exact h.1.symm

theorem Leads.chainFrom_eq {pool : Pool} {place : Option Nat} {indices : List Nat}
    (h : pool.Leads place indices none) {n : Nat} (hn : indices.length ≤ n) :
    pool.chainFrom n place = indices := by
  induction indices generalizing place n with
  | nil =>
    cases (h : place = none)
    cases n <;> rfl
  | cons index rest ih =>
    obtain ⟨rfl, -, hrest⟩ := h
    cases n with
    | zero => simp at hn
    | succ n => rw [chainFrom, ih hrest (by simpa using hn)]

/-- A list of different blocks is no longer than the arena. -/
theorem Leads.length_le {pool : Pool} {place stop : Option Nat} {indices : List Nat}
    (h : pool.Leads place indices stop) (hnodup : indices.Nodup) :
    indices.length ≤ pool.blocks.length := by
  have hsub : indices ⊆ List.range pool.blocks.length := fun index hi =>
    List.mem_range.2 (h.lt_length index hi)
  simpa using hnodup.length_le_of_subset hsub

/-- A list of different blocks from the tail to the end of the links is the chain. -/
theorem Leads.chain_eq {pool : Pool} {indices : List Nat}
    (h : pool.Leads pool.tail indices none) (hnodup : indices.Nodup) :
    pool.chain = indices := h.chainFrom_eq (h.length_le hnodup)

theorem Linked.chain_eq {pool : Pool} {indices : List Nat} (h : pool.Linked indices) :
    pool.chain = indices := h.leads.chain_eq h.nodup

theorem Linked.sound {pool : Pool} {indices : List Nat} (h : pool.Linked indices)
    (hhead : indices = [] → pool.head = none) : pool.Sound := by
  have hc := h.chain_eq
  exact { hc ▸ h with head_nil := fun hn => hhead (hc ▸ hn) }

theorem Sound.tail_eq {pool : Pool} (h : pool.Sound) : pool.tail = pool.chain.head? :=
  h.leads.head?.symm

/-- The head is the newest block of the chain. -/
theorem Sound.mem_of_head {pool : Pool} (h : pool.Sound) {head : Nat} (hh : pool.head = some head) :
    head ∈ pool.chain := by
  cases hl : pool.chain.getLast? with
  | none => simp [h.head_nil (List.getLast?_eq_none_iff.1 hl)] at hh
  | some last =>
    rw [h.newest last hl] at hh
    cases Option.some.inj hh
    exact List.mem_of_getLast? hl

theorem Sound.linkedBytes_eq_nil_iff {pool : Pool} (h : pool.Sound) :
    pool.linkedBytes = [] ↔ pool.chain = [] := by
  cases hc : pool.chain with
  | nil => simp [linkedBytes, hc]
  | cons oldest newer =>
    have hpos : 0 < (pool.bytesAt oldest).length := h.holds oldest (by simp [hc])
    have hne : pool.bytesAt oldest ≠ [] := List.ne_nil_of_length_pos hpos
    simp [linkedBytes, hc, hne]

theorem Sound.isDrained_iff {pool : Pool} (h : pool.Sound) :
    pool.isDrained = true ↔ pool.chain = [] := by
  rw [isDrained, h.tail_eq, Option.isNone_iff_eq_none, List.head?_eq_none_iff]

theorem Sound.offset_le {pool : Pool} (h : pool.Sound) :
    pool.offset ≤ pool.linkedBytes.length := by
  cases hc : pool.chain with
  | nil => simp [h.offset_nil hc]
  | cons oldest newer =>
    have hlt : pool.offset < pool.lengthAt oldest := h.offset_lt oldest (by simp [hc])
    rw [linkedBytes, hc, List.flatMap_cons, List.length_append, ← lengthAt]
    omega

theorem sound_empty : empty.Sound where
  leads := rfl
  nodup := by simp
  newest := by simp
  active_iff := fun index => by rw [chain_empty]; simp [activeAt, empty]
  idle := by simp [nextAt, empty]
  holds := by simp
  offset_lt := by simp
  offset_nil := fun _ => rfl
  head_nil := fun _ => rfl

/-! ## Retiring the oldest block -/

@[simp] theorem length_blocks_retire (pool : Pool) (index : Nat) :
    (pool.retire index).blocks.length = pool.blocks.length := by simp [retire]

@[simp] theorem bytesAt_retire (pool : Pool) (index i : Nat) :
    (pool.retire index).bytesAt i = pool.bytesAt i := by
  simp only [bytesAt, retire, List.getElem?_modify]
  cases pool.blocks[i]? with
  | none => rfl
  | some block => by_cases hi : index = i <;> simp [hi]

@[simp] theorem lengthAt_retire (pool : Pool) (index i : Nat) :
    (pool.retire index).lengthAt i = pool.lengthAt i := by simp [lengthAt]

theorem nextAt_retire (pool : Pool) (index i : Nat) :
    (pool.retire index).nextAt i = if i = index then none else pool.nextAt i := by
  simp only [nextAt, retire, List.getElem?_modify]
  cases pool.blocks[i]? with
  | none => simp
  | some block => by_cases hi : index = i <;> simp [hi, eq_comm]

theorem activeAt_retire (pool : Pool) (index i : Nat) :
    (pool.retire index).activeAt i = if i = index then false else pool.activeAt i := by
  simp only [activeAt, retire, List.getElem?_modify]
  cases pool.blocks[i]? with
  | none => simp
  | some block => by_cases hi : index = i <;> simp [hi, eq_comm]

/-- Retiring the oldest block takes it off the chain. -/
theorem Linked.retire {pool : Pool} {index : Nat} {newer : List Nat}
    (h : pool.Linked (index :: newer)) : (pool.retire index).Linked newer := by
  obtain ⟨hni, hnd⟩ := List.nodup_cons.1 h.nodup
  have hne : ∀ i ∈ newer, i ≠ index := fun i hi he => hni (he ▸ hi)
  constructor
  case leads =>
    refine h.leads.2.2.congr (fun i hi => ?_) (fun i hi => ?_)
    · simpa using h.leads.lt_length i (by simp [hi])
    · rw [nextAt_retire, if_neg (hne i hi)]
  case nodup => exact hnd
  case newest =>
    intro last hl
    refine h.newest last ?_
    cases newer with
    | nil => simp at hl
    | cons => simpa using hl
  case active_iff =>
    intro i
    by_cases hi : i = index
    · simp [activeAt_retire, hi, hni]
    · simp [activeAt_retire, hi, h.active_iff]
  case idle =>
    intro i hi
    by_cases hx : i = index
    · simp [nextAt_retire, hx]
    · simpa [nextAt_retire, hx] using h.idle i (by simp [hx, hi])
  case holds =>
    intro i hi
    simpa using h.holds i (by simp [hi])
  case offset_lt =>
    intro oldest ho
    rw [lengthAt_retire]
    exact h.holds oldest (by simp [List.mem_of_mem_head? ho])
  case offset_nil => exact fun _ => rfl

/-! ## Storing a block off the chain -/

/-- The second pool is the first with the given block in one place. -/
structure Stores (pool stored : Pool) (index : Nat) (block : Block) : Prop where
  at_index : stored.blocks[index]? = some block
  elsewhere : ∀ i, i ≠ index → stored.blocks[i]? = pool.blocks[i]?
  head_eq : stored.head = pool.head
  tail_eq : stored.tail = pool.tail
  offset_eq : stored.offset = pool.offset

theorem stores_replace {pool : Pool} {index : Nat} {block : Block}
    (h : index < pool.blocks.length) :
    pool.Stores (pool.replace index block) index block where
  at_index := by simp [replace, h]
  elsewhere i hi := by simp [replace, List.getElem?_set_ne (Ne.symm hi)]
  head_eq := rfl
  tail_eq := rfl
  offset_eq := rfl

theorem stores_push (pool : Pool) (block : Block) :
    pool.Stores (pool.countAllocation.push block) pool.blocks.length block where
  at_index := by simp [push, countAllocation]
  elsewhere i hi := by
    simp only [push, countAllocation]
    rcases Nat.lt_or_ge i pool.blocks.length with hlt | hge
    · rw [List.getElem?_append_left hlt]
    · have hlen : (pool.blocks ++ [block]).length ≤ i := by
        rw [List.length_append, List.length_singleton]
        omega
      rw [List.getElem?_eq_none hlen, List.getElem?_eq_none hge]
  head_eq := rfl
  tail_eq := rfl
  offset_eq := rfl

namespace Stores
variable {pool stored : Pool} {index : Nat} {block : Block}

theorem lengthAt_index (h : pool.Stores stored index block) :
    stored.lengthAt index = block.buffer.length := by
  simp [lengthAt, bytesAt, h.at_index, Buffer.length]

theorem bytesAt_ne (h : pool.Stores stored index block) {i : Nat} (hi : i ≠ index) :
    stored.bytesAt i = pool.bytesAt i := by rw [bytesAt, bytesAt, h.elsewhere i hi]

theorem lengthAt_ne (h : pool.Stores stored index block) {i : Nat} (hi : i ≠ index) :
    stored.lengthAt i = pool.lengthAt i := by rw [lengthAt, lengthAt, h.bytesAt_ne hi]

theorem nextAt_ne (h : pool.Stores stored index block) {i : Nat} (hi : i ≠ index) :
    stored.nextAt i = pool.nextAt i := by rw [nextAt, nextAt, h.elsewhere i hi]

theorem activeAt_ne (h : pool.Stores stored index block) {i : Nat} (hi : i ≠ index) :
    stored.activeAt i = pool.activeAt i := by rw [activeAt, activeAt, h.elsewhere i hi]

theorem lt_length (h : pool.Stores stored index block) {i : Nat}
    (hi : i < pool.blocks.length) : i < stored.blocks.length := by
  by_cases he : i = index
  · subst he
    exact (List.getElem?_eq_some_iff.1 h.at_index).1
  · have hs : stored.blocks[i]? = some pool.blocks[i] := by
      rw [h.elsewhere i he, List.getElem?_eq_getElem hi]
    exact (List.getElem?_eq_some_iff.1 hs).1

/-- Storing a block off the way leaves the links as they are. -/
theorem leads (h : pool.Stores stored index block) {place stop : Option Nat} {indices : List Nat}
    (hl : pool.Leads place indices stop) (hi : index ∉ indices) :
    stored.Leads place indices stop :=
  hl.congr (fun i hm => h.lt_length (hl.lt_length i hm))
    fun _ hm => h.nextAt_ne fun he => hi (he ▸ hm)

/-- A stored block that holds nothing leaves the chain as it is. -/
theorem linked (h : pool.Stores stored index block) {indices : List Nat}
    (hp : pool.Linked indices) (hi : index ∉ indices) (ha : block.active = false)
    (hn : block.next = none) : stored.Linked indices := by
  have hne : ∀ i ∈ indices, i ≠ index := fun i hm he => hi (he ▸ hm)
  constructor
  case leads =>
    rw [h.tail_eq]
    exact h.leads hp.leads hi
  case nodup => exact hp.nodup
  case newest => exact fun last hl => h.head_eq ▸ hp.newest last hl
  case active_iff =>
    intro i
    by_cases he : i = index
    · subst he
      simp [activeAt, h.at_index, ha, hi]
    · rw [h.activeAt_ne he, hp.active_iff]
  case idle =>
    intro i hm
    by_cases he : i = index
    · subst he
      simp [nextAt, h.at_index, hn]
    · rw [h.nextAt_ne he, hp.idle i hm]
  case holds => exact fun i hm => h.lengthAt_ne (hne i hm) ▸ hp.holds i hm
  case offset_lt =>
    intro oldest ho
    rw [h.offset_eq, h.lengthAt_ne (hne oldest (List.mem_of_mem_head? ho))]
    exact hp.offset_lt oldest ho
  case offset_nil => exact fun hc => h.offset_eq ▸ hp.offset_nil hc

end Stores

/-! ## Linking a stored block -/

@[simp] theorem length_blocks_link (pool : Pool) (index freed : Nat) :
    (pool.link index freed).blocks.length = pool.blocks.length := by
  cases hh : pool.head <;> simp [link, hh]

@[simp] theorem bytesAt_link (pool : Pool) (index freed i : Nat) :
    (pool.link index freed).bytesAt i = pool.bytesAt i := by
  cases hh : pool.head with
  | none => simp [bytesAt, link, hh]
  | some head =>
    simp only [bytesAt, link, hh, Option.elim_some, List.getElem?_modify]
    cases pool.blocks[i]? with
    | none => rfl
    | some block => by_cases hi : head = i <;> simp [hi]

@[simp] theorem lengthAt_link (pool : Pool) (index freed i : Nat) :
    (pool.link index freed).lengthAt i = pool.lengthAt i := by simp [lengthAt]

@[simp] theorem activeAt_link (pool : Pool) (index freed i : Nat) :
    (pool.link index freed).activeAt i = pool.activeAt i := by
  cases hh : pool.head with
  | none => simp [activeAt, link, hh]
  | some head =>
    simp only [activeAt, link, hh, Option.elim_some, List.getElem?_modify]
    cases pool.blocks[i]? with
    | none => rfl
    | some block => by_cases hi : head = i <;> simp [hi]

theorem nextAt_link_of_ne {pool : Pool} {index freed i : Nat} (hi : pool.head ≠ some i) :
    (pool.link index freed).nextAt i = pool.nextAt i := by
  cases hh : pool.head with
  | none => simp [nextAt, link, hh]
  | some head =>
    have hne : head ≠ i := fun he => hi (he ▸ hh)
    simp [nextAt, link, hh, hne]

theorem nextAt_link_head {pool : Pool} {index freed last : Nat} (hh : pool.head = some last)
    (hlt : last < pool.blocks.length) :
    (pool.link index freed).nextAt last = some index := by
  simp [nextAt, link, hh, List.getElem?_eq_getElem hlt]

section
variable {pool stored : Pool} {index freed : Nat} {block : Block}

/-- A block linked behind the newest is where the links end. -/
theorem Leads.link {place : Option Nat} {older : List Nat} {last : Nat}
    (h : pool.Leads place (older ++ [last]) none) (hhead : pool.head = some last)
    (hlast : last ∉ older) (hlt : index < pool.blocks.length)
    (hnext : pool.nextAt index = none) (hne : index ≠ last) :
    (pool.link index freed).Leads place (older ++ ([last] ++ [index])) none := by
  obtain ⟨between, holder, rfl, hllt, -⟩ := leads_append.1 h
  refine leads_append.2 ⟨some last, ?_, rfl, ?_, ?_, ?_, ?_⟩
  · refine holder.congr (fun i hm => ?_) (fun i hm => ?_)
    · simpa using holder.lt_length i hm
    · have hin : pool.head ≠ some i := by
        rw [hhead]
        exact fun he => hlast (Option.some.inj he ▸ hm)
      exact nextAt_link_of_ne hin
  · simpa using hllt
  · exact nextAt_link_head hhead hllt
  · simpa using hlt
  · have hin : pool.head ≠ some index := by
      rw [hhead]
      exact fun he => hne (Option.some.inj he).symm
    rw [nextAt_link_of_ne hin, hnext]
    rfl

/-- The links run on from the newest block of the chain to the one stored. -/
theorem Stores.leads_link (h : pool.Stores stored index block) (hp : pool.Sound)
    (hi : index ∉ pool.chain) (hn : block.next = none) :
    (stored.link index freed).Leads (stored.link index freed).tail
      (pool.chain ++ [index]) none := by
  have hlt : index < stored.blocks.length := (List.getElem?_eq_some_iff.1 h.at_index).1
  have hnext : stored.nextAt index = none := by simp [nextAt, h.at_index, hn]
  have htail : (stored.link index freed).tail = pool.tail.or (some index) := by
    rw [link, h.tail_eq]
  rcases List.eq_nil_or_concat pool.chain with hc | ⟨older, last, hc⟩
  · have hhead : stored.head ≠ some index := by simp [h.head_eq, hp.head_nil hc]
    rw [hc, htail, hp.tail_eq, hc]
    exact ⟨rfl, by simpa using hlt, by rw [nextAt_link_of_ne hhead, hnext]; rfl⟩
  · rw [List.concat_eq_append] at hc
    have hhead : stored.head = some last := h.head_eq ▸ hp.newest last (by simp [hc])
    have hleads := h.leads hp.leads hi
    have hnodup := hp.nodup
    have htail' : (stored.link index freed).tail = stored.tail := by
      rw [htail, h.tail_eq, hp.tail_eq, hc]
      cases older <;> rfl
    rw [hc] at hleads hnodup hi
    rw [hc, htail', h.tail_eq, List.append_assoc]
    refine hleads.link hhead ?_ hlt hnext fun he => hi (by simp [he])
    exact fun hm => (List.nodup_append.1 hnodup).2.2 last hm last (by simp) rfl

/-- The offset lies inside the oldest block, be it the one stored or not. -/
theorem Stores.offset_link_lt (h : pool.Stores stored index block) (hp : pool.Sound)
    (hi : index ∉ pool.chain) (hf : freed < block.buffer.length) :
    ∀ oldest ∈ (pool.chain ++ [index]).head?,
      (stored.link index freed).offset < (stored.link index freed).lengthAt oldest := by
  intro oldest ho
  have hd : stored.isDrained = pool.isDrained := by rw [isDrained, isDrained, h.tail_eq]
  cases hc : pool.chain with
  | nil =>
    have hdr : stored.isDrained = true := hd ▸ hp.isDrained_iff.2 hc
    rw [hc] at ho
    have he : index = oldest := by simpa using ho
    rw [lengthAt_link, link, ← he, h.lengthAt_index]
    simpa [hdr] using hf
  | cons first rest =>
    have hdr : stored.isDrained = false := by
      rw [hd, Bool.eq_false_iff, ne_eq, hp.isDrained_iff]
      simp [hc]
    rw [hc] at ho
    have he : first = oldest := by simpa using ho
    have hne : oldest ≠ index := fun hx => hi (by simp [hc, he, ← hx])
    rw [lengthAt_link, h.lengthAt_ne hne]
    simpa [link, hdr, h.offset_eq] using hp.offset_lt oldest (by simp [hc, he])

/-- Linking a stored block whose first byte is not freed appends it to the chain. -/
theorem Stores.linked_link (h : pool.Stores stored index block) (hp : pool.Sound)
    (hi : index ∉ pool.chain) (hn : block.next = none) (ha : block.active = true)
    (hf : freed < block.buffer.length) :
    (stored.link index freed).Linked (pool.chain ++ [index]) := by
  have hlen := h.lengthAt_index
  have hne : ∀ i ∈ pool.chain, i ≠ index := fun i hm he => hi (he ▸ hm)
  constructor
  case leads => exact h.leads_link hp hi hn
  case nodup =>
    rw [List.nodup_append]
    refine ⟨hp.nodup, by simp, fun i hm j hj => ?_⟩
    rw [List.mem_singleton.1 hj]
    exact hne i hm
  case newest =>
    intro last hl
    simpa [link] using hl
  case active_iff =>
    intro i
    rw [activeAt_link]
    by_cases he : i = index
    · subst he
      simp [activeAt, h.at_index, ha]
    · simp [h.activeAt_ne he, hp.active_iff, he]
  case idle =>
    intro i hm
    have hix : i ≠ index := fun he => hm (by simp [he])
    have hin : stored.head ≠ some i := by
      rw [h.head_eq]
      intro hh
      exact hm (by simp [hp.mem_of_head hh])
    rw [nextAt_link_of_ne hin, h.nextAt_ne hix]
    exact hp.idle i fun hc => hm (by simp [hc])
  case holds =>
    intro i hm
    rw [lengthAt_link]
    by_cases he : i = index
    · subst he
      omega
    · rw [h.lengthAt_ne he]
      exact hp.holds i (by simpa [he] using hm)
  case offset_lt => exact h.offset_link_lt hp hi hf
  case offset_nil => simp

end

end Lookahead.Pool
