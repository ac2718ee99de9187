import Lookahead.Proofs.Pool.Holdings
import Lookahead.Proofs.Pool.Stock
import Lookahead.Proofs.Scanner.Sizes
import Lookahead.Source.Scripted
import Mathlib.Algebra.BigOperators.Ring.List
import Mathlib.Algebra.Group.Action.Defs
import Mathlib.Algebra.Order.BigOperators.Group.List

/-!
# Bounded lag

A caller who frees what was shifted, if late, needs no more memory than the lag takes,
however long the stream is. As long as the window keeps its size, every buffer is of
that size, and a window moves on only if at least half of it stays behind. So every
block but the oldest has as much that is not freed. A swap that allocates finds all
blocks in use, and then the bytes that are not freed fill half of each but one.

## Main definitions

* `Scanner.Level`: all buffers are of one size and the blocks well used.
* `Scanner.LagsWithin`: how much is not freed when the window moves on.

## Main statements

* `Scanner.Level.relocate`: a move keeps the allocations within what the lag takes.
* `Scanner.allocations_le_of_lag`: a caller who is late by no more than the lag makes for
  no more allocations than the lag takes.
-/
namespace Lookahead

namespace Pool

/-! ## Pools with blocks of one size -/

/-- All blocks were allocated for one size, and each of the chain but the oldest has at
least half of it that is not freed. -/
structure Level (pool : Pool) (size : Nat) : Prop where
  capacity_eq : ∀ capacity ∈ pool.capacities, capacity = size
  allocations_eq : pool.allocations = pool.blocks.length
  halves : ∀ holding ∈ pool.holdings.tail, size ≤ 2 * holding.unfreed

variable {pool : Pool} {size : Nat}

theorem level_empty (size : Nat) : empty.Level size :=
  ⟨List.forall_mem_nil _, rfl, List.forall_mem_nil _⟩

/-- Freeing takes blocks out of use, oldest first. -/
theorem Level.free (h : pool.Level size) (hs : pool.Sound) (n : Nat) :
    (pool.free n).pool.Level size where
  capacity_eq := by
    rw [Pool.free, capacities_freeAlong]
    exact h.capacity_eq
  allocations_eq := allocations_eq_free h.allocations_eq n
  halves := by
    rw [hs.holdings_free]
    exact forall_tail_discharge h.halves n

/-- Holdings of half a size each add up. -/
theorem length_mul_le_sum {holdings : List Holding}
    (h : ∀ holding ∈ holdings, size ≤ 2 * holding.unfreed) :
    holdings.length * size ≤ 2 * (holdings.map Holding.unfreed).sum := by
  have hsum := List.card_nsmul_le_sum (holdings.map fun holding => 2 * holding.unfreed) size
    (List.forall_mem_map.2 h)
  rwa [List.length_map, smul_eq_mul, List.sum_map_mul_left] at hsum

/-- The bytes that are parked fill half of each block of the chain but the oldest. -/
theorem Level.outstanding_ge (h : pool.Level size) (hs : pool.Sound) {oldest : Nat}
    {newer : List Nat} (hc : pool.chain = oldest :: newer) :
    newer.length * size + 2 ≤ 2 * pool.outstanding := by
  have hblocks := pool.map_block_holdings
  have hpos := hs.unfreed_pos
  have hhalves := h.halves
  rw [← hs.sum_holdings]
  rw [hc] at hblocks
  cases hh : pool.holdings with
  | nil => simp [hh] at hblocks
  | cons first rest =>
    rw [hh] at hblocks hpos hhalves
    have hlength : rest.length = newer.length := by
      simpa using congrArg List.length hblocks
    have hfirst := hpos first List.mem_cons_self
    have hrest := length_mul_le_sum hhalves
    rw [List.tail_cons, hlength] at hrest
    rw [List.map_cons, List.sum_cons]
    omega

/-- If no block can be used again for the size, all are on the chain. -/
theorem Level.length_le_chain (h : pool.Level size) (hs : pool.Sound)
    (hexhausted : pool.Exhausted size) : pool.blocks.length ≤ pool.chain.length := by
  have hsubset : List.range pool.blocks.length ⊆ pool.chain := by
    intro index hi
    have hlt := List.mem_range.1 hi
    rw [← hs.active_iff]
    by_contra hidle
    have hsmall := exhausted_iff.1 hexhausted index hlt (by simpa using hidle)
    have heq := h.capacity_eq _ (capacityAt_mem hlt)
    omega
  simpa using List.nodup_range.length_le_of_subset hsubset

/-- A block that a swap puts on the chain behind others keeps all that is retained. -/
theorem Level.halves_exchange (h : pool.Level size) (hs : pool.Sound) {old buffer : Buffer}
    {retain freed : Nat} (hr : retain ≤ old.length)
    (hd : freed = 0 ∨ pool.isDrained = true) (hhalf : size ≤ 2 * retain)
    (hok : (pool.exchange old retain freed size).result = .ok buffer) :
    ∀ holding ∈ (pool.exchange old retain freed size).pool.holdings.tail,
      size ≤ 2 * holding.unfreed := by
  obtain ⟨index, -, hholdings⟩ := hs.holdings_exchange hr hd hok
  rw [hholdings]
  cases hh : pool.holdings with
  | nil =>
    split <;> exact List.forall_mem_nil _
  | cons oldest newer =>
    have hparked : pool.isDrained ≠ true := by
      rw [ne_eq, hs.isDrained_iff, ← pool.map_block_holdings, hh]
      exact nofun
    have hold := h.halves
    rw [hh] at hold
    rw [List.cons_append, List.tail_cons, hd.resolve_right hparked]
    refine List.forall_mem_append.2 ⟨hold, ?_⟩
    split
    · exact List.forall_mem_singleton.2 hhalf
    · exact List.forall_mem_nil _

/-- A swap for the same size leaves all buffers of that size. -/
theorem Level.capacities_exchange (h : pool.Level size) {old buffer : Buffer}
    {retain freed : Nat} (hcapacity : old.capacity = size)
    (hok : (pool.exchange old retain freed size).result = .ok buffer) :
    ∀ capacity ∈ buffer.capacity :: (pool.exchange old retain freed size).pool.capacities,
      capacity = size := by
  have hbefore : ∀ capacity ∈ old.capacity :: pool.capacities, capacity = size :=
    List.forall_mem_cons.2 ⟨hcapacity, h.capacity_eq⟩
  by_cases hmust : pool.MustAllocate old retain freed size
  · obtain ⟨hmade, hcapacities, -⟩ := hmust.exchange_of_le (hmust.le_of_ok hok)
    cases Except.ok.inj (hok.symm.trans hmade)
    refine List.forall_mem_cons.2 ⟨rfl, fun capacity hm => hbefore capacity ?_⟩
    rw [hcapacities] at hm
    exact (List.perm_append_singleton _ _).subset hm
  · obtain ⟨_, hkept, -, -, hperm⟩ := exchange_of_not_mustAllocate hmust
    cases Except.ok.inj (hok.symm.trans hkept)
    exact fun capacity hm => hbefore capacity (hperm.subset hm)

/-- A swap for the same size keeps the blocks well used, if half of the size is retained
and none of it freed while bytes are parked. -/
theorem Level.exchange (h : pool.Level size) (hs : pool.Sound) {old buffer : Buffer}
    {retain freed : Nat} (hcapacity : old.capacity = size) (hr : retain ≤ old.length)
    (hd : freed = 0 ∨ pool.isDrained = true) (hhalf : size ≤ 2 * retain)
    (hok : (pool.exchange old retain freed size).result = .ok buffer) :
    (pool.exchange old retain freed size).pool.Level size ∧ buffer.capacity = size := by
  obtain ⟨hbuffer, hblocks⟩ := List.forall_mem_cons.1 (h.capacities_exchange hcapacity hok)
  have hcount := allocations_eq_exchange h.allocations_eq hok
  exact ⟨⟨hblocks, hcount, h.halves_exchange hs hr hd hhalf hok⟩, hbuffer⟩

end Pool

/-- A window that follows was announced. -/
def Moved (log : List Event) : Prop := ∃ event ∈ log, event.size?.isSome = true

instance (log : List Event) : Decidable (Moved log) :=
  inferInstanceAs (Decidable (∃ event ∈ log, _ = true))

theorem Moved.mono {log part : List Event} (h : Moved part) (hp : part ⊆ log) : Moved log :=
  h.imp fun _ hm => ⟨hp hm.1, hm.2⟩

namespace Scanner

variable {σ : Type} {scanner : Scanner σ} {delivered : List UInt8} {mode : Mode}
  {size lag target : Nat}

/-! ## One move -/

/-- If there are allocations, the lag fills half of the size for each but one of them. -/
def Paid (allocations size lag : Nat) : Prop :=
  allocations = 0 ∨ (allocations - 1) * size + 2 ≤ 2 * lag

theorem Paid.le {allocations : Nat} (h : Paid allocations size lag) :
    allocations = 0 ∨ ((allocations : Int) - 1) * size ≤ 2 * ((lag : Int) - 1) := by
  rcases h with hzero | hle
  · exact .inl hzero
  · cases allocations with
    | zero => exact .inl rfl
    | succ n =>
      have hcast : ((n * size : Nat) : Int) + 2 ≤ 2 * (lag : Int) := by
        rw [Nat.add_sub_cancel] at hle
        omega
      rw [Int.natCast_mul] at hcast
      rw [Int.natCast_add, Int.natCast_one, Int.add_sub_cancel]
      right
      omega

/-- All buffers of a scanner were allocated for one size, and no more of them than a lag
takes. A window that lost its buffer does not matter. -/
structure Level (scanner : Scanner σ) (size lag : Nat) : Prop where
  window : scanner.window.Kept → scanner.window.size = size
  buffer : scanner.window.Kept → scanner.window.buffer.capacity = size
  pool : scanner.pool.Level size
  paid : Paid scanner.pool.allocations size lag

theorem level_unread (config : Config) (source : σ) (lag : Nat) :
    (unread config source).Level config.initialCapacity lag where
  window := fun _ => Window.size_vacant _
  buffer := fun _ => rfl
  pool := Pool.level_empty _
  paid := .inl rfl

/-- A full window that is followed by one of its size leaves half of it behind. -/
theorem le_two_mul_retained (hk : scanner.window.Kept) (hfull : scanner.window.spare = [])
    (hroom : 0 < scanner.window.size)
    (hgrowth : Window.growth scanner.window.size scanner.residual = scanner.window.size) :
    scanner.window.size ≤ 2 * scanner.retained ∧ scanner.residual < scanner.window.size := by
  have hle := scanner.retained_le_filled
  have hsize : scanner.window.size = scanner.window.filled := by simp [hk.size_eq, hfull]
  rw [Window.growth] at hgrowth
  rw [residual] at hgrowth ⊢
  split at hgrowth <;> omega

/-- **An allocation is paid for by bytes that are not freed**: all blocks are on the chain
then, and what leaves the window is half of it or more. -/
theorem Level.allocations_le (hl : scanner.Level size lag) (h : scanner.Sound delivered)
    (hk : scanner.window.Kept) (hhalf : size ≤ 2 * scanner.retained)
    (hmust : scanner.pool.MustAllocate scanner.window.buffer scanner.retained
      (min scanner.consumed scanner.retained) size)
    (hlag : scanner.shiftedTotal ≤ scanner.freedTotal + lag) :
    scanner.pool.allocations * size + 2 ≤ 2 * lag := by
  obtain ⟨hneeds, hexhausted⟩ := hmust
  have hchain := hl.pool.length_le_chain h.pool hexhausted
  have hfreed : min scanner.consumed scanner.retained < scanner.retained := by
    have := hl.buffer hk
    omega
  have hretained : scanner.retained ≤ scanner.start := Nat.min_le_left ..
  have hconsumed := h.consumed_le
  have hparked := h.outstanding_le hk.placed
  rw [← hl.pool.allocations_eq] at hchain
  rw [shiftedTotal, freedTotal] at hlag
  cases hc : scanner.pool.chain with
  | nil =>
    rw [hc, List.length_nil, Nat.le_zero] at hchain
    rw [hchain, Nat.zero_mul]
    omega
  | cons oldest newer =>
    have hlinked := hl.pool.outstanding_ge h.pool hc
    have hunfreed : scanner.consumed = 0 := by
      refine h.consumed_eq hk.placed ?_
      rw [← Bool.not_eq_true, h.pool.isDrained_iff, hc]
      exact List.cons_ne_nil oldest newer
    have hproduct : scanner.pool.allocations * size ≤ newer.length * size + size := by
      rw [← Nat.succ_mul]
      rw [hc, List.length_cons] at hchain
      exact Nat.mul_le_mul_right size hchain
    omega

theorem Level.paid_exchange (hl : scanner.Level size lag) (h : scanner.Sound delivered)
    (hk : scanner.window.Kept) (hhalf : size ≤ 2 * scanner.retained)
    (hlag : scanner.shiftedTotal ≤ scanner.freedTotal + lag) :
    Paid (scanner.pool.exchange scanner.window.buffer scanner.retained
      (min scanner.consumed scanner.retained) size).pool.allocations size lag := by
  by_cases hmust : scanner.pool.MustAllocate scanner.window.buffer scanner.retained
      (min scanner.consumed scanner.retained) size
  · rw [hmust.allocations_exchange]
    exact .inr (hl.allocations_le h hk hhalf hmust hlag)
  · obtain ⟨_, -, hcount, -⟩ := Pool.exchange_of_not_mustAllocate hmust
    rw [hcount]
    exact hl.paid

/-- The swap behind a move to a window of the same size keeps the blocks well used and
paid for. -/
theorem Level.swapped (hl : scanner.Level size lag) (h : scanner.Sound delivered)
    (hk : scanner.window.Kept) (hhalf : size ≤ 2 * scanner.retained) {buffer : Buffer}
    (hb : (scanner.swapped mode size).result = .ok buffer)
    (hlag : scanner.shiftedTotal ≤ scanner.freedTotal + lag) :
    (scanner.swapped mode size).pool.Level size ∧ buffer.capacity = size ∧
      Paid (scanner.swapped mode size).pool.allocations size lag := by
  rw [h.swapped_eq hk.placed] at hb ⊢
  obtain ⟨hpool, hbuffer⟩ := hl.pool.exchange h.pool (hl.buffer hk) scanner.retained_le_filled
    (h.freed_eq_zero_or hk.placed) hhalf hb
  exact ⟨hpool, hbuffer, hl.paid_exchange h hk hhalf hlag⟩

/-- A window that has lost its buffer is not followed by one with room. -/
theorem kept_of_nextSize (hroom : scanner.window.filled ≤ scanner.window.size)
    (hnext : Window.growth scanner.window.size scanner.residual = size) (hpos : 0 < size) :
    scanner.window.Kept := by
  by_contra hk
  rw [Window.size_of_not_kept hk] at hroom hnext
  rw [residual, Nat.le_zero.1 hroom, Nat.zero_sub] at hnext
  have hzero : Window.growth 0 0 = 0 := by decide
  omega

/-- A move to a window of the same size keeps all buffers level, also if it is stopped
behind the swap. -/
theorem Level.relocate (hl : scanner.Level size lag) (h : scanner.Sound delivered)
    (ha : scanner.status.isActive = true) (hfull : scanner.window.spare = [])
    (hroom : scanner.window.filled ≤ scanner.window.size) (hlimit : scanner.limit? = none)
    (hsize : size ≤ Word.maxAllocation) (hpos : 0 < size)
    (hlog : Announces (· = size) (scanner.relocate mode target).log)
    (hlag : scanner.window.Kept → Moved (scanner.relocate mode target).log →
      scanner.shiftedTotal ≤ scanner.freedTotal + lag) :
    (scanner.relocate mode target).scanner.Level size lag := by
  have hnext := nextSize_of_unlimited hlimit scanner.residual
  -- the window that follows has the size of this one, which then has its buffer
  have hmove {next : Nat} (hn : scanner.nextSize scanner.residual = .ok next)
      (hr : (scanner.relocate mode target).log =
        scanner.moving next :: (scanner.swapped mode next).log) :
      next = size ∧ scanner.window.Kept ∧ size ≤ 2 * scanner.retained ∧
        scanner.residual < size ∧ scanner.shiftedTotal ≤ scanner.freedTotal + lag := by
    rw [hr] at hlog hlag
    obtain rfl : next = size := (announces_moving (· = size)).1 hlog
    have hgrowth := Except.ok.inj (hnext.symm.trans hn)
    have hk := kept_of_nextSize hroom hgrowth hpos
    obtain ⟨hhalf, hresidual⟩ := le_two_mul_retained hk hfull (h.room hk ha)
      (hgrowth.trans (hl.window hk).symm)
    rw [hl.window hk] at hhalf hresidual
    exact ⟨rfl, hk, hhalf, hresidual, hlag hk ⟨_, List.mem_cons_self, rfl⟩⟩
  rcases scanner.relocate_cases mode target with
    ⟨limit, hn, -⟩ | ⟨next, hn, ⟨buffer, hb, hr⟩ | ⟨fault, left, ⟨hf, -⟩ | ⟨hb, -⟩, hr⟩⟩
  · cases hn.symm.trans hnext
  · obtain ⟨rfl, hk, hhalf, hresidual, hlate⟩ := hmove hn (congrArg Outcome.log hr)
    obtain ⟨hpool, hbuffer, hpaid⟩ := hl.swapped h hk hhalf hb hlate
    rw [hr]
    exact ⟨fun _ => size_rebase hk (Pool.bytes_of_swap hb) hresidual, fun _ => hbuffer, hpool,
      hpaid⟩
  · obtain ⟨rfl, hk, -⟩ := hmove hn (congrArg Outcome.log hr)
    obtain ⟨capacity, hok⟩ := scanner.pool.result_exchange scanner.window.buffer scanner.retained
      (min scanner.consumed scanner.retained) hsize
    rw [← h.swapped_eq hk.placed mode, hf] at hok
    cases hok
  · obtain ⟨rfl, hk, hhalf, -, hlate⟩ := hmove hn (congrArg Outcome.log hr)
    obtain ⟨hpool, -, hpaid⟩ := hl.swapped h hk hhalf hb hlate
    rw [hr]
    exact ⟨fun hlost => absurd hlost Window.not_kept_lose,
      fun hlost => absurd hlost Window.not_kept_lose, hpool, hpaid⟩

/-! ## Passes -/

section
variable [Source σ]

/-- A read changes no buffer but for the bytes in it. -/
theorem Level.draw (hl : scanner.Level size lag) : scanner.draw.scanner.Level size lag := by
  obtain ⟨source, status, bytes, room, hs, -⟩ := scanner.draw_cases
  have hwindow (hk : scanner.window.Kept) := (size_draw scanner).trans (hl.window hk)
  rw [hs] at hwindow ⊢
  exact ⟨hwindow, hl.buffer, hl.pool, hl.paid⟩

theorem Level.passes (hl : scanner.Level size lag) (h : scanner.Sound delivered)
    (hlimit : scanner.limit? = none) (hsize : size ≤ Word.maxAllocation) (hpos : 0 < size)
    {outcome : Outcome σ Unit} (hp : Passes mode scanner outcome)
    (hlog : Announces (· = size) outcome.log)
    (hlag : scanner.window.Kept → Moved outcome.log →
      scanner.shiftedTotal ≤ scanner.freedTotal + lag) :
    outcome.scanner.Level size lag := by
  refine h.passes_induction (motive := fun here log => Announces (· = size) log →
    (scanner.window.Kept → Moved log → scanner.shiftedTotal ≤ scanner.freedTotal + lag) →
      here.Level size lag) (fun _ _ => hl) ?_ ?_ hp hlog hlag
  · intro here log target hmid hfull hroom ih hlog hlag
    rw [announces_append] at hlog
    have hearly := ih hlog.1 fun hk hm => hlag hk (hm.mono (List.subset_append_left ..))
    refine hearly.relocate hmid.sound hmid.active hfull hroom (hmid.steady.limit.trans hlimit)
      hsize hpos hlog.2 fun hk hm => ?_
    rw [hmid.steady.shifted, hmid.steady.freed hk.placed]
    exact hlag (hmid.steady.inherits.kept hk) (hm.mono (List.subset_append_right ..))
  · intro here log _ _ ih hlog hlag
    rw [announces_append] at hlog
    exact (ih hlog.1 fun hk hm => hlag hk (hm.mono (List.subset_append_left ..))).draw

/-! ## Runs -/

theorem Level.apply (hl : scanner.Level size lag) (h : scanner.Sound delivered)
    (hlimit : scanner.limit? = none) (hsize : size ≤ Word.maxAllocation) (hpos : 0 < size)
    {op : Op} (hlog : Announces (· = size) (scanner.apply mode op).log)
    (hlag : scanner.window.Kept → Moved (scanner.apply mode op).log →
      scanner.shiftedTotal ≤ scanner.freedTotal + lag) :
    (scanner.apply mode op).scanner.Level size lag := by
  cases hlook : op.looks with
  | true => exact hl.passes h hlimit hsize hpos (passes_apply mode scanner hlook) hlog hlag
  | false =>
    have hquiet := quiet_apply mode scanner hlook
    have hpool : (scanner.apply mode op).scanner.pool.Level size := by
      rcases pool_apply mode scanner hlook with heq | ⟨n, heq⟩
      · rw [heq]
        exact hl.pool
      · rw [heq]
        exact hl.pool.free h.pool n
    have hpaid := hl.paid
    rw [← hquiet.allocations] at hpaid
    exact ⟨hquiet.window ▸ hl.window, hquiet.window ▸ hl.buffer, hpool, hpaid⟩

/-- Whenever the window moves on, no more than the lag has been shifted or skipped and
not freed. -/
def LagsWithin (mode : Mode) (lag : Nat) (scanner : Scanner σ) (ops : List Op) : Prop :=
  scanner.Along mode
    (fun early here op =>
      Moved (here.apply mode op).log → here.shiftedTotal ≤ freedBy early + lag) ops

instance {ops : List Op} : Decidable (scanner.LagsWithin mode lag ops) :=
  inferInstanceAs (Decidable (scanner.Along mode (fun early here op =>
    Moved (here.apply mode op).log → here.shiftedTotal ≤ freedBy early + lag) ops))

/-- A run that frees with bounded lag keeps all buffers level, if the window keeps its
size. -/
theorem Level.run (hl : scanner.Level size lag) (h : scanner.Sound delivered)
    (hlimit : scanner.limit? = none) (hsize : size ≤ Word.maxAllocation) (hpos : 0 < size)
    (hfreed : scanner.freedTotal = 0) {ops : List Op} (hfree : scanner.FreesWithin mode ops)
    (hlag : scanner.LagsWithin mode lag ops)
    (hlog : Announces (· = size) (scanner.after mode ops).2) :
    (scanner.after mode ops).1.Level size lag := by
  induction ops using List.reverseRecOn with
  | nil => exact hl
  | append_singleton ops op ih =>
    rw [after_concat, announces_append] at hlog
    rw [after_concat]
    refine (ih hfree.init hlag.init hlog.1).apply (h.run mode ops)
      ((limit_after h ops).trans hlimit) hsize hpos hlog.2 fun hk => ?_
    rw [h.freedTotal_after hfreed hfree.init hk.placed]
    exact hlag.last

/-- **Memory stays constant on an endless stream** when the caller frees with bounded
lag. As long as all windows announced are of the first size, and the caller frees nothing
that was not shifted or skipped and is late by no more than the lag whenever the window
moves on, the lag bounds the number of allocations; without a lag there are none. The
window keeps its size, in a checked run until a word cannot count the bytes delivered. -/
theorem allocations_le_of_lag {config : Config} (source : σ) (mode : Mode)
    (hvalid : config.Valid) (hlimit : config.maxCapacity? = none)
    (hinitial : config.initialCapacity ≤ Word.maxAllocation) :
    ∃ built, ofSource mode config source = .ok built ∧
      ∀ ops lag, built.scanner.FreesWithin mode ops → built.scanner.LagsWithin mode lag ops →
        Announces (· = config.initialCapacity) (built.log ++ (built.scanner.after mode ops).2) →
        ∀ early late, ops = early ++ late →
          let here := (built.scanner.after mode early).1
          (Numbered mode (built.log ++ (built.scanner.after mode early).2) →
            here.window.size = config.initialCapacity) ∧
            (here.pool.allocations = 0 ∨
              ((here.pool.allocations : Int) - 1) * config.initialCapacity ≤
                2 * ((lag : Int) - 1)) ∧
            (lag = 0 → here.pool.allocations = 0) := by
  have hbuilt := ofSource_of_valid mode source hvalid hinitial
  refine ⟨_, hbuilt, ?_⟩
  rintro _ lag hfree hlag hlog early late rfl here
  have hafford : Affordable (((unread config source).peek mode 0).log ++
      (((unread config source).peek mode 0).scanner.after mode (early ++ late)).2) :=
    fun event he size hs => hlog event he size hs ▸ hinitial
  rw [after_append, ← List.append_assoc, affordable_append] at hafford
  obtain ⟨hfirst, hrun⟩ := announces_append.1 hlog
  rw [after_append, announces_append] at hrun
  have hunread := sound_unread hvalid source
  obtain ⟨-, hsteady⟩ := hunread.passes (passes_peek (unread config source) 0)
  have hmade : ((unread config source).peek mode 0).scanner.Level config.initialCapacity lag :=
    (level_unread config source lag).passes hunread hlimit hinitial hvalid.1 (passes_peek _ 0)
      hfirst fun _ _ => Nat.zero_le _
  have hlevel : here.Level config.initialCapacity lag :=
    hmade.run (sound_ofSource hbuilt) (hsteady.limit.trans hlimit) hinitial hvalid.1
      (freedTotal_ofSource hbuilt) hfree.of_append hlag.of_append hrun.1
  refine ⟨fun hcount => hlevel.window (kept_of_numbered hbuilt hafford.1 hcount),
    hlevel.paid.le, ?_⟩
  rintro rfl
  exact hlevel.paid.resolve_right (by omega)

/-- The bound is sharp: a caller who is late by three bytes, of which one is parked when
the window of four bytes moves on for the second time, makes for two allocations. -/
theorem allocations_le_of_lag_sharp :
    let source : Source.Scripted := { data := [1, 2, 3, 4, 5, 6, 7, 8, 9, 10] }
    let config : Config := { initialCapacity := 4 }
    let built := (unread config source).peek .checked 0
    let here := (built.scanner.after .checked
      [.moveTo 2, .skip, .peek 2, .free 1, .moveTo 2, .skip, .peek 2]).1
    here.window.size = config.initialCapacity ∧ here.pool.allocations = 2 ∧
      ((here.pool.allocations : Int) - 1) * config.initialCapacity ≤ 2 * ((3 : Nat) - 1 : Int) := by
  intro source config built here
  have hvalid : config.Valid := ⟨by decide, nofun⟩
  obtain ⟨made, hmade, hbound⟩ := allocations_le_of_lag source .checked hvalid rfl (by decide)
  obtain rfl : made = built := Except.ok.inj
    (hmade.symm.trans (ofSource_eq_ok_iff.2 ⟨hvalid, by decide, rfl⟩))
  have htwo : here.pool.allocations = 2 := by decide +kernel
  have hhere := hbound [.moveTo 2, .skip, .peek 2, .free 1, .moveTo 2, .skip, .peek 2] 3
    (by decide +kernel) (by decide +kernel) (by decide +kernel) _ []
    (List.append_nil _).symm
  -- the state is folded again, or comparing the two sides would evaluate the run
  have hdef : here = (built.scanner.after .checked
      [.moveTo 2, .skip, .peek 2, .free 1, .moveTo 2, .skip, .peek 2]).1 := rfl
  rw [← hdef] at hhere
  obtain ⟨hsize, hcount, -⟩ := hhere
  refine ⟨hsize (by decide +kernel), htwo, hcount.resolve_left ?_⟩
  rw [htwo]
  decide

end

end Scanner
end Lookahead
