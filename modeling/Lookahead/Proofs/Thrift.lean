import Lookahead.Proofs.Pool.Stock
import Lookahead.Proofs.Scanner.Sizes
import Lookahead.Source.Scripted

/-!
# Freeing at once

A caller who has freed all that was shifted whenever it looks ahead leaves the pool
nothing to do. When the window moves on, nothing of what stays behind is left to be freed,
so nothing is parked, and the token slides down in the buffer where it is. Only a window
that becomes larger needs another buffer. The one that it outgrows goes to the arena, where
all blocks are too small for the windows to come, so each such buffer is allocated.

A window becomes larger only if more than half of it is carried over. As long as no more
than that is ever carried over, no buffer is allocated at all.

## Main definitions

* `growths`: the moves to a larger window in a log.
* `Roomy`: at no move more than half of the window is carried over.
* `Scanner.FreesAll`: all that was shifted is freed before each look ahead.
* `Scanner.Thrifty`: no byte is parked, and all blocks are too small to be used again.

## Main statements

* `Scanner.Thrifty.relocate`: a move parks nothing and allocates only to grow.
* `Scanner.Sound.crowded_of_grows`: a window grows only when it is crowded.
* `Scanner.thrifty_of_freesAll`: a run that frees all at once parks nothing, and allocates
  as often as its window grows.
-/
namespace Lookahead

/-! ## Moves in a log -/

/-- Whether an event announces a window larger than the one before. -/
def Event.grows : Event → Bool
  | relocating _ capacity size _ => capacity < size
  | _ => false

/-- Whether an event announces a move that carries over more than half of the window. -/
def Event.crowded : Event → Bool
  | relocating residual capacity _ _ => capacity < 2 * residual
  | _ => false

/-- The number of moves to a larger window in a log. -/
def growths (log : List Event) : Nat := log.countP Event.grows

/-- At every move no more than half of the window is carried over. -/
def Roomy (log : List Event) : Prop := ∀ event ∈ log, event.crowded = false

instance (log : List Event) : Decidable (Roomy log) :=
  inferInstanceAs (Decidable (∀ event ∈ log, _ = false))

@[simp] theorem growths_append (first last : List Event) :
    growths (first ++ last) = growths first + growths last := List.countP_append

/-- Only moves of the window are counted. -/
theorem Event.grows_of_size {event : Event} (h : event.size? = none) : event.grows = false := by
  cases event with
  | relocating => cases h
  | _ => rfl

theorem growths_of_size {log : List Event} (h : ∀ event ∈ log, event.size? = none) :
    growths log = 0 := by
  rw [growths, List.countP_eq_zero]
  intro event he
  simp [Event.grows_of_size (h event he)]

/-- Freeing leaves an empty pool empty. -/
theorem Pool.isDrained_free {pool : Pool} (h : pool.Sound) (hd : pool.isDrained = true) (n : Nat) :
    (pool.free n).pool.isDrained = true := by
  rw [free, h.isDrained_iff.1 hd, freeAlong]
  exact hd

/-- A swap that parks nothing slides the token down if the buffer is large enough, and
allocates if it is not and all blocks are smaller still. -/
theorem Pool.exchange_of_outgrown {pool : Pool} {old : Buffer} {retain size : Nat}
    (houtgrown : ∀ capacity ∈ pool.capacities, capacity < old.capacity)
    (hle : old.capacity ≤ size) (hsize : size ≤ Word.maxAllocation) :
    let exchanged := pool.exchange old retain retain size
    exchanged.result = .ok ⟨old.bytes.drop retain, size⟩ ∧
      (∀ capacity ∈ exchanged.pool.capacities, capacity < size) ∧
      exchanged.pool.allocations = pool.allocations + if old.capacity < size then 1 else 0 := by
  intro exchanged
  by_cases hgrow : old.capacity < size
  · have hmust : pool.MustAllocate old retain retain size :=
      ⟨.inr hgrow, fun block hm _ =>
        Nat.lt_trans (houtgrown _ (List.mem_map_of_mem hm)) hgrow⟩
    obtain ⟨hresult, hcapacities, -⟩ := hmust.exchange_of_le hsize
    refine ⟨hresult, ?_, ?_⟩
    · rw [hcapacities]
      refine List.forall_mem_append.2 ⟨fun capacity hm => ?_, List.forall_mem_singleton.2 hgrow⟩
      exact Nat.lt_trans (houtgrown capacity hm) hgrow
    · rw [if_pos hgrow]
      exact hmust.allocations_exchange
  · obtain rfl : old.capacity = size := by omega
    have hslide : exchanged = { result := .ok (old.drop retain), pool } := by
      simp only [exchanged, exchange, Nat.le_refl, and_self, if_true]
    rw [hslide, if_neg hgrow]
    exact ⟨rfl, houtgrown, rfl⟩

namespace Scanner

variable {σ : Type} {scanner : Scanner σ} {delivered : List UInt8} {mode : Mode}
  {count target : Nat}

/-! ## One move -/

/-- No byte is parked, the window has a buffer of its own size unless it lost it, and all
others are smaller. So many buffers have been allocated. -/
structure Thrifty (scanner : Scanner σ) (count : Nat) : Prop where
  drained : scanner.pool.isDrained = true
  capacity : scanner.window.Kept → scanner.window.buffer.capacity = scanner.window.size
  outgrown : scanner.window.Kept →
    ∀ capacity ∈ scanner.pool.capacities, capacity < scanner.window.size
  counted : scanner.pool.allocations = count

theorem thrifty_unread (config : Config) (source : σ) : (unread config source).Thrifty 0 where
  drained := rfl
  capacity := fun _ => (Window.size_vacant _).symm
  outgrown := fun _ => List.forall_mem_nil _
  counted := rfl

/-- If all that was shifted is freed, nothing of what stays behind is not. -/
theorem Thrifty.freed_eq (ht : scanner.Thrifty count) (h : scanner.Sound delivered)
    (hfreed : scanner.freedTotal = scanner.shiftedTotal) :
    min scanner.consumed scanner.retained = scanner.retained := by
  have hnone := h.pool.outstanding_eq_zero ht.drained
  have hle : scanner.retained ≤ scanner.start := Nat.min_le_left ..
  rw [freedTotal, shiftedTotal, hnone] at hfreed
  omega

/-- The move of a window counts if it makes it larger. -/
theorem growths_moving (mode : Mode) (scanner : Scanner σ) (size : Nat) :
    growths (scanner.moving size :: (scanner.swapped mode size).log) =
      if scanner.window.size < size then 1 else 0 := by
  have hidle : growths (scanner.swapped mode size).log = 0 :=
    growths_of_size fun event he => (Pool.idle_swap _ _ _ _ _ _ event he).size
  rw [← List.singleton_append, growths_append, hidle, growths, List.countP_singleton]
  simp [moving, Event.grows]

/-- A swap parks nothing and allocates only to grow, if all that was shifted is freed. -/
theorem Thrifty.swapped (ht : scanner.Thrifty count) (h : scanner.Sound delivered)
    (hk : scanner.window.Kept) (hfreed : scanner.freedTotal = scanner.shiftedTotal) {size : Nat}
    (hn : scanner.nextSize scanner.residual = .ok size) (hsize : size ≤ Word.maxAllocation)
    (mode : Mode) :
    let swapped := scanner.swapped mode size
    swapped.result = .ok ⟨scanner.window.bytes.drop scanner.retained, size⟩ ∧
      swapped.pool.isDrained = true ∧ (∀ capacity ∈ swapped.pool.capacities, capacity < size) ∧
      swapped.pool.allocations = count + if scanner.window.size < size then 1 else 0 := by
  intro swapped
  have hcapacity := ht.capacity hk
  have hswap : swapped = _ := h.swapped_eq hk.placed mode size
  rw [ht.freed_eq h hfreed] at hswap
  obtain ⟨hresult, houtgrown, hcount⟩ := Pool.exchange_of_outgrown
    (hcapacity ▸ ht.outgrown hk) (hcapacity ▸ (nextSize_le hn h.within).1) hsize
  rw [← hswap] at hresult houtgrown hcount
  rw [hcapacity, ht.counted] at hcount
  refine ⟨hresult, ?_, houtgrown, hcount⟩
  rw [hswap, h.pool.isDrained_exchange (Nat.le_refl _)]
  exact ht.drained

/-- **A move parks nothing and allocates only to grow**, if all that was shifted is freed. So
does one that is stopped behind the swap, and without a buffer there is no other to come. -/
theorem Thrifty.relocate (ht : scanner.Thrifty count) (h : scanner.Sound delivered)
    (ha : scanner.status.isActive = true)
    (hroom : scanner.window.filled ≤ scanner.window.size)
    (hfreed : scanner.window.Kept → scanner.freedTotal = scanner.shiftedTotal)
    (hlog : Affordable (scanner.relocate mode target).log) :
    (scanner.relocate mode target).scanner.Thrifty
      (count + growths (scanner.relocate mode target).log) := by
  by_cases hk : scanner.window.Kept
  · rcases scanner.relocate_cases mode target with
      ⟨limit, -, hr⟩ | ⟨size, hn, ⟨buffer, hb, hr⟩ | ⟨fault, left, hstopped, hr⟩⟩
    · rw [hr]
      exact ⟨ht.drained, ht.capacity, ht.outgrown, ht.counted⟩
    · obtain ⟨hresult, hdrained, houtgrown, hcount⟩ :=
        ht.swapped h hk (hfreed hk) hn (le_of_affordable_relocate hn hlog) mode
      have hwindow : (scanner.rebase buffer (scanner.swapped mode size).pool size).window.size =
          size :=
        size_rebase hk (Pool.bytes_of_swap hb) (residual_lt_nextSize hn hk (h.room hk ha))
      obtain rfl := Except.ok.inj (hb.symm.trans hresult)
      rw [hr, growths_moving]
      exact ⟨hdrained, fun _ => hwindow.symm, fun _ => hwindow.symm ▸ houtgrown, hcount⟩
    · obtain ⟨hresult, hdrained, -, hcount⟩ :=
        ht.swapped h hk (hfreed hk) hn (le_of_affordable_relocate hn hlog) mode
      rw [hr, growths_moving]
      exact ⟨hdrained, fun hkept => absurd hkept Window.not_kept_lose,
        fun hkept => absurd hkept Window.not_kept_lose, hcount⟩
  · rcases relocate_of_not_kept hk hroom h.within mode target with ⟨limit, hr⟩ | ⟨-, hr⟩
    · rw [hr]
      exact ⟨ht.drained, ht.capacity, ht.outgrown, ht.counted⟩
    · rw [hr]
      exact ⟨ht.drained, fun hkept => absurd hkept hk, fun hkept => absurd hkept hk, ht.counted⟩

/-- A window becomes larger only if more than half of it is carried over. -/
theorem Sound.crowded_of_grows_relocate (h : scanner.Sound delivered) :
    ∀ event ∈ (scanner.relocate mode target).log,
      event.grows = true → event.crowded = true := by
  have hmoving {size : Nat} (hn : scanner.nextSize scanner.residual = .ok size) :
      ∀ event ∈ scanner.moving size :: (scanner.swapped mode size).log,
        event.grows = true → event.crowded = true := by
    intro event he hgrows
    rcases List.mem_cons.1 he with rfl | he
    · obtain ⟨-, hle⟩ := nextSize_le hn h.within
      have hlt : scanner.window.size < size := by simpa [moving, Event.grows] using hgrows
      rw [Window.growth] at hle
      have hcrowded : scanner.window.size < 2 * scanner.residual := by
        by_contra hroomy
        rw [if_neg hroomy] at hle
        omega
      simpa [moving, Event.crowded] using hcrowded
    · have hidle := (Pool.idle_swap _ _ _ _ _ _ event he).size
      rw [Event.grows_of_size hidle] at hgrows
      cases hgrows
  rcases scanner.relocate_cases mode target with
    ⟨limit, -, hr⟩ | ⟨size, hn, ⟨buffer, -, hr⟩ | ⟨fault, left, -, hr⟩⟩
  · rw [hr]
    intro event he hgrows
    rw [List.mem_singleton.1 he] at hgrows
    cases hgrows
  · rw [hr]
    exact hmoving hn
  · rw [hr]
    exact hmoving hn

/-! ## Passes -/

section
variable [Source σ]

/-- A read changes no buffer but for the bytes in it. -/
theorem Thrifty.draw (ht : scanner.Thrifty count) : scanner.draw.scanner.Thrifty count := by
  obtain ⟨source, status, bytes, room, hs, -⟩ := scanner.draw_cases
  have hsize := size_draw scanner
  rw [hs] at hsize ⊢
  exact ⟨ht.drained, fun hk => (ht.capacity hk).trans hsize.symm, fun hk => hsize ▸ ht.outgrown hk,
    ht.counted⟩

theorem Thrifty.passes (ht : scanner.Thrifty count) (h : scanner.Sound delivered)
    (hfreed : scanner.freedTotal = scanner.shiftedTotal) {outcome : Outcome σ Unit}
    (hp : Passes mode scanner outcome) (hlog : Affordable outcome.log) :
    outcome.scanner.Thrifty (count + growths outcome.log) := by
  refine h.passes_induction
    (motive := fun here log => Affordable log → here.Thrifty (count + growths log))
    (fun _ => ht) ?_ ?_ hp hlog
  · intro here log target hmid _ hroom ih hlog
    rw [affordable_append] at hlog
    rw [growths_append, ← Nat.add_assoc]
    refine (ih hlog.1).relocate hmid.sound hmid.active hroom (fun hk => ?_) hlog.2
    rw [hmid.steady.freed hk.placed, hmid.steady.shifted, hfreed]
  · intro here log _ _ ih hlog
    rw [affordable_append] at hlog
    rw [growths_append, growths_of_size (size?_draw here)]
    exact (ih hlog.1).draw

/-! ## Runs -/

/-- Whenever the caller looks ahead, all bytes shifted or skipped so far are freed. -/
def FreesAll (mode : Mode) (scanner : Scanner σ) (ops : List Op) : Prop :=
  scanner.Along mode (fun _ here op => op.looks = true → here.freedTotal = here.shiftedTotal) ops

instance {ops : List Op} : Decidable (scanner.FreesAll mode ops) :=
  inferInstanceAs (Decidable (scanner.Along mode (fun _ here op =>
    op.looks = true → here.freedTotal = here.shiftedTotal) ops))

theorem Thrifty.apply (ht : scanner.Thrifty count) (h : scanner.Sound delivered) {op : Op}
    (hfreed : op.looks = true → scanner.freedTotal = scanner.shiftedTotal)
    (hlog : Affordable (scanner.apply mode op).log) :
    (scanner.apply mode op).scanner.Thrifty (count + growths (scanner.apply mode op).log) := by
  cases hlook : op.looks with
  | true => exact ht.passes h (hfreed hlook) (passes_apply mode scanner hlook) hlog
  | false =>
    have hquiet := quiet_apply mode scanner hlook
    have hpool : (scanner.apply mode op).scanner.pool.isDrained = true ∧
        (scanner.apply mode op).scanner.pool.capacities = scanner.pool.capacities := by
      rcases pool_apply mode scanner hlook with heq | ⟨n, heq⟩
      · rw [heq]
        exact ⟨ht.drained, rfl⟩
      · rw [heq]
        exact ⟨Pool.isDrained_free h.pool ht.drained n, Pool.capacities_freeAlong _ n _⟩
    rw [growths_of_size fun event he => (hquiet.log event he).size]
    constructor
    case drained => exact hpool.1
    case capacity => exact hquiet.window ▸ ht.capacity
    case outgrown =>
      rw [hpool.2, hquiet.window]
      exact ht.outgrown
    case counted => exact hquiet.allocations.trans ht.counted

/-- A run that frees all at once parks nothing and allocates only to grow. -/
theorem Thrifty.run (ht : scanner.Thrifty count) (h : scanner.Sound delivered) {ops : List Op}
    (hfree : scanner.FreesAll mode ops) (hlog : Affordable (scanner.after mode ops).2) :
    (scanner.after mode ops).1.Thrifty (count + growths (scanner.after mode ops).2) := by
  induction ops using List.reverseRecOn with
  | nil => exact ht
  | append_singleton ops op ih =>
    rw [after_concat, affordable_append] at hlog
    rw [after_concat, growths_append, ← Nat.add_assoc]
    exact (ih hfree.init hlog.1).apply (h.run mode ops) hfree.last hlog.2

/-- **A window grows only when it is crowded.** -/
theorem Sound.crowded_of_grows (h : scanner.Sound delivered) (ops : List Op) :
    ∀ event ∈ (scanner.after mode ops).2, event.grows = true → event.crowded = true := by
  refine h.run_induction (motive := fun _ log =>
    ∀ event ∈ log, event.grows = true → event.crowded = true) ?_ ?_ ?_ ?_ ops
  · exact List.forall_mem_nil _
  · intro here log target hsound _ _ _ ih
    exact List.forall_mem_append.2 ⟨ih, hsound.crowded_of_grows_relocate⟩
  · intro here log _ _ _ ih
    refine List.forall_mem_append.2 ⟨ih, fun event he hgrows => ?_⟩
    rw [Event.grows_of_size (size?_draw here event he)] at hgrows
    cases hgrows
  · intro here log op _ hop ih
    refine List.forall_mem_append.2 ⟨ih, fun event he hgrows => ?_⟩
    rw [Event.grows_of_size ((quiet_apply mode here hop).log event he).size] at hgrows
    cases hgrows

/-- **Freeing each token at once costs no pool traffic.** If all that was shifted or skipped
is freed whenever the caller looks ahead, then in every state no byte is parked, and the
number of allocations is the number of moves that made the window larger. There are none as
long as no more than half of the window is carried over at every move. -/
theorem thrifty_of_freesAll {config : Config} (source : σ) (mode : Mode)
    (hvalid : config.Valid) (hinitial : config.initialCapacity ≤ Word.maxAllocation) :
    ∃ built, ofSource mode config source = .ok built ∧
      ∀ ops, built.scanner.FreesAll mode ops →
        let here := (built.scanner.after mode ops).1
        let log := built.log ++ (built.scanner.after mode ops).2
        Affordable log →
          here.pool.chain = [] ∧ here.pool.parked = [] ∧
            here.pool.allocations = growths log ∧ (Roomy log → here.pool.allocations = 0) := by
  have hbuilt := ofSource_of_valid mode source hvalid hinitial
  refine ⟨_, hbuilt, ?_⟩
  intro ops hfree here log hlog
  obtain ⟨hfirst, hrun⟩ := affordable_append.1 hlog
  have hunread := sound_unread hvalid source
  have hmade : ((unread config source).peek mode 0).scanner.Thrifty
      (0 + growths ((unread config source).peek mode 0).log) :=
    (thrifty_unread config source).passes hunread rfl (passes_peek _ 0) hfirst
  have hsound := (sound_ofSource hbuilt).run mode ops
  have hhere : here.Thrifty (growths log) := by
    rw [Nat.zero_add] at hmade
    rw [show growths log = _ from growths_append _ _]
    exact hmade.run (sound_ofSource hbuilt) hfree hrun
  refine ⟨hsound.pool.isDrained_iff.1 hhere.drained, hsound.pool.parked_eq_nil_iff.2 hhere.drained,
    hhere.counted, fun hroomy => ?_⟩
  · rw [hhere.counted, growths, List.countP_eq_zero]
    intro event he hgrows
    have hcrowded := hunread.crowded_of_grows (.peek 0 :: ops) event he hgrows
    rw [hroomy event he] at hcrowded
    cases hcrowded

/-- A token of two bytes slides down in the window of four, and one of five bytes is skipped
and freed before it is read. For the token of six bytes the window grows, once. -/
theorem thrifty_of_freesAll_grown :
    let source : Source.Scripted := { data := List.replicate 20 1, pace? := some 3 }
    let built := (unread { initialCapacity := 4 } source).peek .unchecked 0
    let early := [.moveTo 2, .skip, .free 2, .peek 2, .moveTo 5, .skip, .free 9, .peek 0]
    let late := [.moveTo 6, .peek 0, .shift, .free 6, .peek 8]
    let here := (built.scanner.after .unchecked early).1
    let there := (built.scanner.after .unchecked (early ++ late)).1
    here.window.base = 6 ∧ here.pool.allocations = 0 ∧ there.window.base = 13 ∧
      there.pool.chain = [] ∧ there.pool.allocations = 1 := by
  intro source built early late here there
  have hvalid : ({ initialCapacity := 4 } : Config).Valid := ⟨by decide, nofun⟩
  obtain ⟨made, hmade, hthrifty⟩ := thrifty_of_freesAll source .unchecked hvalid (by decide)
  obtain rfl : made = built := Except.ok.inj
    (hmade.symm.trans (ofSource_eq_ok_iff.2 ⟨hvalid, by decide, rfl⟩))
  have hhere := hthrifty early (by decide +kernel) (by decide +kernel)
  have hthere := hthrifty (early ++ late) (by decide +kernel) (by decide +kernel)
  -- the states are folded again, or comparing the two sides would evaluate the run
  have hfirst : here = (built.scanner.after .unchecked early).1 := rfl
  have hlast : there = (built.scanner.after .unchecked (early ++ late)).1 := rfl
  rw [← hfirst] at hhere
  rw [← hlast] at hthere
  obtain ⟨-, -, -, hnone⟩ := hhere
  obtain ⟨hchain, -, hcount, -⟩ := hthere
  refine ⟨by decide +kernel, hnone (by decide +kernel), by decide +kernel, hchain, ?_⟩
  rw [hcount]
  decide +kernel

end

end Scanner
end Lookahead
