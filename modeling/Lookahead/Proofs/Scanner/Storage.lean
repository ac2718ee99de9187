import Lookahead.Proofs.Pool.Stock
import Lookahead.Proofs.Scanner.Affordable

/-!
# Storage within bounds

The size of a window that follows is computed from the one before and from what
is carried over; only then is the limit looked at. As long as all sizes computed
are those of buffers that can be allocated, the storage of a scanner stays within
bounds: the window fits into its buffer, and the buffers asked for are fewer than
the positions that the window covers or has left behind. For every buffer that is
asked for, the window has moved on or grown.

## Main definitions

* `Modest`: every size computed in a log can be allocated.
* `Scanner.Fits`: the storage is within bounds.

## Main statements

* `Scanner.Sound.growth_le`: the size that a move computes can be allocated.
* `Scanner.Sound.fits_apply`: every operation keeps the storage within bounds.
-/
namespace Lookahead

/-- Every size computed for a window that follows, before any limit is looked at,
can be allocated. -/
def Modest (log : List Event) : Prop :=
  ∀ event ∈ log, ∀ size ∈ event.computed?, size ≤ Word.maxAllocation

instance (log : List Event) : Decidable (Modest log) :=
  inferInstanceAs (Decidable (∀ event ∈ log, ∀ size ∈ event.computed?, size ≤ Word.maxAllocation))

@[simp] theorem modest_append {first last : List Event} :
    Modest (first ++ last) ↔ Modest first ∧ Modest last := by
  simp [Modest, or_imp, forall_and]

theorem Modest.mono {log part : List Event} (h : Modest log) (hp : part ⊆ log) : Modest part :=
  fun event he => h event (hp he)

theorem modest_of_idle {log : List Event} (h : ∀ event ∈ log, event.Idle) : Modest log := by
  intro event he size hs
  rw [(h event he).computed] at hs
  cases hs

/-- A window never shrinks. -/
theorem Window.le_growth (size residual : Nat) : size ≤ growth size residual := by
  rw [growth]
  split <;> omega

/-- The buffer that comes back holds what was asked for. One more is allocated only
if the old one stays behind or is too small. -/
theorem Pool.exchange_storage {pool : Pool} {old buffer : Buffer} {retain freed size : Nat}
    (hok : (pool.exchange old retain freed size).result = .ok buffer) :
    size ≤ buffer.capacity ∧
      ((pool.exchange old retain freed size).pool.allocations = pool.allocations ∨
        (pool.exchange old retain freed size).pool.allocations = pool.allocations + 1 ∧
          (freed < retain ∨ old.capacity < size)) := by
  by_cases hmust : pool.MustAllocate old retain freed size
  · have hm : size ≤ Word.maxAllocation := hmust.le_of_ok hok
    cases Except.ok.inj (hok.symm.trans (hmust.exchange_of_le hm).1)
    exact ⟨Nat.le_refl _, .inr ⟨hmust.allocations_exchange, hmust.1⟩⟩
  · obtain ⟨_, hkept, hcount, hcap, -⟩ := exchange_of_not_mustAllocate hmust
    cases Except.ok.inj (hok.symm.trans hkept)
    exact ⟨hcap, .inl hcount⟩

namespace Scanner
variable {σ : Type}

/-- The storage of the window and the count of allocations are within bounds. -/
structure Fits (scanner : Scanner σ) : Prop where
  size_le : scanner.window.size ≤ Word.maxAllocation
  capacity_le : scanner.window.size ≤ scanner.window.buffer.capacity
  count_lt : scanner.pool.allocations < scanner.window.origin + scanner.window.size

section
variable {scanner : Scanner σ} {delivered : List UInt8} {mode : Mode} {size limit target : Nat}

theorem nextSize_le (hn : scanner.nextSize scanner.residual = .ok size)
    (hw : ∀ limit ∈ scanner.limit?, scanner.window.size ≤ limit) :
    scanner.window.size ≤ size ∧
      size ≤ Window.growth scanner.window.size scanner.residual := by
  have hg := Window.le_growth scanner.window.size scanner.residual
  rw [nextSize] at hn
  cases hl : scanner.limit? with
  | none =>
    simp only [hl] at hn
    cases Except.ok.inj hn
    exact ⟨hg, Nat.le_refl _⟩
  | some limit =>
    simp only [hl] at hn
    split at hn
    · cases hn
    · cases Except.ok.inj hn
      exact ⟨Nat.le_min.2 ⟨hg, hw limit hl⟩, Nat.min_le_left ..⟩

/-- A window that has lost its buffer moves on only where nothing counts as buffered. Nothing
is parked then or carried over, and the window that follows has no room either. -/
theorem relocate_of_not_kept (hlost : ¬scanner.window.Kept)
    (hroom : scanner.window.filled ≤ scanner.window.size)
    (hw : ∀ limit ∈ scanner.limit?, scanner.window.size ≤ limit) (mode : Mode) (target : Nat) :
    (∃ limit, scanner.relocate mode target = scanner.refuse target limit) ∨
      scanner.residual = 0 ∧ scanner.relocate mode target =
        ⟨.ok (), scanner.rebase (scanner.window.buffer.drop scanner.retained) scanner.pool 0,
          [scanner.moving 0]⟩ := by
  have hsize : scanner.window.size = 0 := Window.size_of_not_kept hlost
  have hfilled : scanner.window.filled = 0 := Nat.le_zero.1 (hsize ▸ hroom)
  have hretained : scanner.retained = 0 := Nat.le_zero.1 (hfilled ▸ scanner.retained_le_filled)
  have hresidual : scanner.residual = 0 := by rw [residual, hfilled, Nat.zero_sub]
  have hadd : mode.add scanner.window.base scanner.retained = .ok scanner.window.base := by
    rw [hretained]
    exact mode.add_of_lt scanner.window.base_lt
  rcases scanner.relocate_cases mode target with
    ⟨limit, -, hr⟩ | ⟨size, hn, hmoved⟩
  · exact .inl ⟨limit, hr⟩
  obtain rfl : size = 0 := by
    have hle := (nextSize_le hn hw).2
    rw [hsize, hresidual] at hle
    exact Nat.le_zero.1 hle
  have hswap : scanner.swapped mode 0 =
      { result := .ok (scanner.window.buffer.drop scanner.retained), pool := scanner.pool } := by
    have hrange : min scanner.consumed scanner.retained ≤ scanner.retained ∧
        scanner.retained ≤ scanner.window.buffer.length :=
      ⟨Nat.min_le_right .., scanner.retained_le_filled⟩
    have hfreed : min scanner.consumed scanner.retained = 0 := by rw [hretained, Nat.min_zero]
    have hslides : scanner.retained ≤ min scanner.consumed scanner.retained :=
      Nat.le_of_eq (hretained.trans hfreed.symm)
    rw [swapped, Pool.swap, if_neg (Mode.not_rejects hrange),
      if_neg (Mode.not_rejects (.inl hfreed)), Pool.exchange,
      if_pos ⟨hslides, Nat.zero_le _⟩]
  refine .inr ⟨hresidual, ?_⟩
  rcases hmoved with ⟨buffer, hb, hr⟩ | ⟨fault, left, ⟨hf, -⟩ | ⟨-, hf⟩, -⟩
  · rw [hswap] at hb hr
    rw [Except.ok.inj hb]
    exact hr
  · rw [hswap] at hf
    cases hf
  · rw [hadd] at hf
    cases hf

/-- A window is refused only if one as large as the limit holds nothing but the
unfinished token. -/
theorem nextSize_eq_error (hn : scanner.nextSize scanner.residual = .error limit)
    (hk : scanner.window.Kept) (hs : 0 < scanner.window.size)
    (hw : ∀ limit ∈ scanner.limit?, scanner.window.size ≤ limit) :
    scanner.window.size = limit ∧ scanner.residual = limit := by
  have hr := residual_le_size hk
  have hlt := Window.lt_growth hs hr
  rw [nextSize] at hn
  cases hl : scanner.limit? with
  | none => simp [hl] at hn
  | some bound =>
    simp only [hl] at hn
    split at hn
    · cases Except.error.inj hn
      have := hw limit hl
      omega
    · cases hn

/-- The size that a move of the window computes is one of those in its log. -/
theorem Sound.growth_le (h : scanner.Sound delivered) (hk : scanner.window.Kept)
    (ha : scanner.status.isActive = true)
    (hlog : Modest (scanner.relocate mode target).log) :
    Window.growth scanner.window.size scanner.residual ≤ Word.maxAllocation := by
  rcases scanner.relocate_cases mode target with
    ⟨limit, hn, hr⟩ | ⟨size, -, ⟨buffer, -, hr⟩ | ⟨fault, left, -, hr⟩⟩
  · obtain ⟨hs, hres⟩ := nextSize_eq_error hn hk (h.room hk ha) h.within
    rw [hr] at hlog
    rw [hs, hres]
    exact hlog _ (List.mem_singleton.2 rfl) _ rfl
  · rw [hr] at hlog
    exact hlog _ List.mem_cons_self _ rfl
  · rw [hr] at hlog
    exact hlog _ List.mem_cons_self _ rfl

/-- Moving the window on keeps the storage within bounds. -/
theorem Fits.relocate (hf : scanner.Fits) (h : scanner.Sound delivered)
    (hk : scanner.window.Kept) (ha : scanner.status.isActive = true)
    (hok : (scanner.relocate mode target).result = .ok ())
    (hlog : Modest (scanner.relocate mode target).log)
    (hactive : (scanner.relocate mode target).scanner.status.isActive = true) :
    (scanner.relocate mode target).scanner.Fits := by
  have hgrowth := h.growth_le hk ha hlog
  rcases scanner.relocate_cases mode target with
    ⟨limit, hn, hr⟩ | ⟨size, hn, ⟨buffer, hb, hr⟩ | ⟨fault, left, -, hr⟩⟩
  · rw [hr] at hactive
    simp [refuse] at hactive
  · obtain ⟨hle, hsize⟩ := nextSize_le hn h.within
    have hroom := residual_lt_nextSize hn hk (h.room hk ha)
    have hlen := length_eq_residual (Pool.bytes_of_swap hb)
    have hwindow : (scanner.window.advance scanner.retained buffer size).size = size :=
      hk.size_advance (hlen ▸ Nat.le_of_lt hroom)
    have hfreed : min scanner.consumed scanner.retained ≤ scanner.retained := Nat.min_le_right ..
    rw [swapped] at hb
    obtain ⟨hcap, hcount⟩ := Pool.exchange_storage (Pool.swap_eq_exchange hb ▸ hb)
    rw [← Pool.swap_eq_exchange hb, ← swapped] at hcount
    have hcl := hf.capacity_le
    have hc := hf.count_lt
    rw [hr]
    constructor
    case size_le =>
      simp only [Scanner.rebase, hwindow]
      omega
    case capacity_le =>
      simp only [Scanner.rebase, hwindow]
      exact hcap
    case count_lt =>
      simp only [Scanner.rebase, hwindow]
      simp only [Window.advance]
      omega
  · rw [hr] at hok
    cases hok

variable [Source σ]

/-- A read neither announces nor computes the size of a window. -/
theorem unsized_draw (scanner : Scanner σ) :
    ∀ event ∈ scanner.draw.log, event.size? = none ∧ event.computed? = none := by
  obtain ⟨notices, hlog, hidle⟩ := scanner.log_draw
  rw [hlog]
  refine List.forall_mem_append.2 ⟨fun event he => ?_, fun event he => ?_⟩
  · obtain ⟨call, -, rfl⟩ := List.mem_map.1 he
    exact ⟨rfl, rfl⟩
  · exact ⟨(hidle event he).size, (hidle event he).computed⟩

/-- A read computes no size. -/
theorem modest_draw (scanner : Scanner σ) : Modest scanner.draw.log := by
  intro event he size hs
  rw [(scanner.unsized_draw event he).2] at hs
  cases hs

/-- A read leaves the storage as it is. -/
theorem Fits.draw (hf : scanner.Fits) : scanner.draw.scanner.Fits := by
  obtain ⟨source, status, bytes, room, hs, -, hlen, -⟩ := scanner.draw_cases
  have hsize : ({ scanner.window with
      buffer := scanner.window.buffer.append bytes, spare := room } : Window).size =
      scanner.window.size := by
    refine Window.size_congr rfl ?_
    simp only [Window.filled, Buffer.length_append]
    omega
  rw [hs]
  constructor
  case size_le => exact Nat.le_trans (Nat.le_of_eq hsize) hf.size_le
  case capacity_le => exact Nat.le_trans (Nat.le_of_eq hsize) hf.capacity_le
  case count_lt =>
    exact Nat.lt_of_lt_of_eq hf.count_lt (congrArg (scanner.window.origin + ·) hsize.symm)

theorem Fits.refill (hf : scanner.Fits) (h : scanner.Sound delivered) (hk : scanner.window.Kept)
    (ha : scanner.status.isActive = true) (hok : (scanner.refill mode target).result = .ok ())
    (hlog : Modest (scanner.refill mode target).log)
    (hactive : (scanner.refill mode target).scanner.status.isActive = true) :
    (scanner.refill mode target).scanner.Fits := by
  rw [refill_of_kept hk] at hok hlog hactive ⊢
  by_cases hs : scanner.window.spare = []
  · rw [if_pos hs] at hok hlog hactive ⊢
    cases hr : (scanner.relocate mode target).result with
    | error fault => simp [Outcome.bind_of_error hr] at hok
    | ok _ =>
      have hmove := hlog.mono (Outcome.log_subset_bind ..)
      rw [Outcome.bind_of_ok hr] at hactive ⊢
      by_cases hm : (scanner.relocate mode target).scanner.status.isActive = true
      · rw [if_pos hm]
        exact (hf.relocate h hk ha hr hmove hm).draw
      · rw [if_neg hm] at hactive
        exact absurd hactive hm
  · rw [if_neg hs]
    exact hf.draw

/-- Looking ahead keeps the storage within bounds. -/
theorem Sound.fits_passes (h : scanner.Sound delivered) (hk : scanner.window.Kept)
    (hf : scanner.status.isActive = true → scanner.Fits) {outcome : Outcome σ Unit}
    (hp : Passes mode scanner outcome) (hok : outcome.result = .ok ()) (hlog : Modest outcome.log)
    (ha : outcome.scanner.status.isActive = true) : outcome.scanner.Fits := by
  induction hp with
  | none => exact hf ha
  | stuck => exact nomatch hok
  | more hp hr hactive _ ih =>
    rw [Outcome.log_after, modest_append] at hlog
    exact (ih hr hlog.1 hactive).refill (h.passes hp).sound (hp.kept_of_ok hk hr) hactive hok
      hlog.2 ha

omit [Source σ] in
theorem Quiet.fits {α : Type} {outcome : Outcome σ α} (hq : Quiet scanner outcome)
    (hf : scanner.Fits) : outcome.scanner.Fits := by
  have hw := hq.window
  exact ⟨hw ▸ hf.size_le, hw ▸ hf.capacity_le, hw ▸ hq.allocations ▸ hf.count_lt⟩

/-- Every operation that is not stopped keeps the storage within bounds. -/
theorem Sound.fits_apply (h : scanner.Sound delivered) (hk : scanner.window.Kept)
    (hf : scanner.status.isActive = true → scanner.Fits) {op : Op} {answer : Answer}
    (hok : (scanner.apply mode op).result = .ok answer) (hlog : Modest (scanner.apply mode op).log)
    (ha : (scanner.apply mode op).scanner.status.isActive = true) :
    (scanner.apply mode op).scanner.Fits := by
  rcases passes_or_quiet mode scanner op with hp | hq
  · exact h.fits_passes hk hf hp (Outcome.result_forget_eq_ok_iff.2 ⟨answer, hok⟩) hlog ha
  · exact hq.fits (hf (hq.status ▸ ha))

end

end Scanner
end Lookahead
