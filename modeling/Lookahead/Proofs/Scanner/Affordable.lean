import Lookahead.Proofs.Scanner.Sound

/-!
# Windows that are kept

A sound scanner keeps its side of the contract of a swap, so moving the window can
be stopped for two reasons only: the window that follows is larger than any buffer
can be, or, in a checked run, the base of the window is no word any more. As long as
neither happens the window is kept, looking ahead is never stopped, and every read
finds room for a byte.

Whether the window was kept can be seen at the end of a run, because a buffer that
was lost does not come back.

## Main definitions

* `Affordable`: every window announced in a log can be allocated.
* `Numbered`: a checked run is given fewer bytes than a word can count.
* `Scanner.Countable`: in a checked run, the bytes shifted or those delivered can be
  counted by a word.

## Main statements

* `Scanner.Sound.swapped_eq`: the contract of a swap is kept.
* `Scanner.Sound.kept_passes` and `Scanner.Sound.kept_after`: when the window is kept.
* `Scanner.Passes.result_of_kept`: then looking ahead is not stopped.
-/
namespace Lookahead

/-- Every window announced in a log can be allocated. -/
def Affordable (log : List Event) : Prop :=
  ∀ event ∈ log, ∀ size ∈ event.size?, size ≤ Word.maxAllocation

instance (log : List Event) : Decidable (Affordable log) :=
  inferInstanceAs (Decidable (∀ event ∈ log, ∀ size ∈ event.size?, size ≤ Word.maxAllocation))

/-- A checked run is given fewer bytes than a word can count. -/
def Numbered (mode : Mode) (log : List Event) : Prop :=
  mode = .checked → (deliveredBytes log).length < Word.bound

instance (mode : Mode) (log : List Event) : Decidable (Numbered mode log) :=
  inferInstanceAs (Decidable (_ → _))

@[simp] theorem affordable_append {first last : List Event} :
    Affordable (first ++ last) ↔ Affordable first ∧ Affordable last := by
  simp [Affordable, or_imp, forall_and]

/-- A part of a checked run is given no more bytes than the whole. -/
theorem Numbered.of_append {mode : Mode} {first last : List Event}
    (h : Numbered mode (first ++ last)) : Numbered mode first := by
  intro hm
  have hlt := h hm
  rw [deliveredBytes_append, List.length_append] at hlt
  omega

theorem Affordable.mono {log part : List Event} (h : Affordable log) (hp : part ⊆ log) :
    Affordable part := fun event he => h event (hp he)

/-- What is announced before going on is announced by the whole. -/
theorem Affordable.of_bind {σ α β : Type} {outcome : Outcome σ α}
    {next : α → Scanner σ → Outcome σ β} (h : Affordable (outcome.bind next).log) :
    Affordable outcome.log := h.mono (outcome.log_subset_bind next)

/-- So is what is announced after going on. -/
theorem Affordable.of_bind_ok {σ α β : Type} {outcome : Outcome σ α}
    {next : α → Scanner σ → Outcome σ β} (h : Affordable (outcome.bind next).log) {a : α}
    (hr : outcome.result = .ok a) : Affordable (next a outcome.scanner).log := by
  rw [Outcome.bind_of_ok hr, Outcome.log_after, affordable_append] at h
  exact h.2

/-- A buffer that can be allocated comes back, whichever way the room is found. -/
theorem Pool.result_exchange (pool : Pool) (old : Buffer) (retain freed : Nat) {size : Nat}
    (hsize : size ≤ Word.maxAllocation) :
    ∃ capacity, (pool.exchange old retain freed size).result =
      .ok ⟨old.bytes.drop retain, capacity⟩ := by
  by_cases hs : retain ≤ freed ∧ size ≤ old.capacity
  · exact ⟨old.capacity, by rw [exchange, if_pos hs]; rfl⟩
  cases hr : pool.reusable? size with
  | some index => exact ⟨pool.capacityAt index, by simp only [exchange, if_neg hs, hr]⟩
  | none => exact ⟨size, by simp only [exchange, if_neg hs, hr, if_pos hsize]⟩

namespace Scanner
variable {σ : Type} {scanner : Scanner σ} {delivered : List UInt8} {mode : Mode}

/-- In a checked run, the bytes shifted or those delivered can be counted by a word. -/
def Countable (mode : Mode) (scanner : Scanner σ) (delivered : List UInt8) : Prop :=
  mode = .checked → scanner.shiftedTotal < Word.bound ∨ delivered.length < Word.bound

/-- What could be counted later could be counted before. -/
theorem Countable.mono {later : Scanner σ} {more : List UInt8}
    (h : later.Countable mode (delivered ++ more))
    (hs : scanner.shiftedTotal ≤ later.shiftedTotal) : scanner.Countable mode delivered := by
  intro hm
  have hlater := h hm
  rw [List.length_append] at hlater
  omega

/-- What a checked run is given can be counted after any part of it. -/
theorem countable_of_numbered {log late : List Event} (h : Numbered mode (log ++ late)) :
    scanner.Countable mode (deliveredBytes log ++ deliveredBytes late) := by
  intro hm
  rw [← deliveredBytes_append]
  exact .inr (h hm)

/-- What leaves the window is a range of the buffer, and none of it is freed while
older bytes are parked: the swap is not stopped for want of either. -/
theorem Sound.swapped_eq (h : scanner.Sound delivered) (hp : scanner.window.Placed) (mode : Mode)
    (size : Nat) :
    scanner.swapped mode size = scanner.pool.exchange scanner.window.buffer scanner.retained
      (min scanner.consumed scanner.retained) size := by
  have hrange : min scanner.consumed scanner.retained ≤ scanner.retained ∧
      scanner.retained ≤ scanner.window.buffer.length :=
    ⟨Nat.min_le_right .., scanner.retained_le_filled⟩
  rw [swapped, Pool.swap, if_neg (Mode.not_rejects hrange),
    if_neg (Mode.not_rejects (h.freed_eq_zero_or hp))]

/-- Behind the bytes that stay behind, the base is still a word. -/
theorem Sound.retained_lt (h : scanner.Sound delivered) (hp : scanner.window.Placed)
    (hcount : scanner.Countable mode delivered) :
    mode = .checked → scanner.window.base + scanner.retained < Word.bound := by
  intro hm
  have hbase : scanner.window.base ≤ scanner.window.origin := Word.wrap_le _
  have hrs : scanner.retained ≤ scanner.start := Nat.min_le_left ..
  have hrf := scanner.retained_le_filled
  have hstop := h.stop_eq hp
  have hlt := hcount hm
  rw [Window.stop] at hstop
  rw [shiftedTotal] at hlt
  omega

/-- A move announces the window that follows. -/
theorem le_of_affordable_relocate {size target : Nat}
    (hn : scanner.nextSize scanner.residual = .ok size)
    (hlog : Affordable (scanner.relocate mode target).log) : size ≤ Word.maxAllocation := by
  have hmem : scanner.moving size ∈ (scanner.relocate mode target).log := by
    rcases scanner.relocate_cases mode target with
      ⟨limit, he, -⟩ | ⟨size', hn', ⟨buffer, -, hr⟩ | ⟨fault, left, -, hr⟩⟩
    · simp [hn] at he
    · rw [hr, Except.ok.inj (hn.symm.trans hn')]
      exact List.mem_cons_self
    · rw [hr, Except.ok.inj (hn.symm.trans hn')]
      exact List.mem_cons_self
  exact hlog _ hmem size rfl

/-- A swap whose contract is not rejected moves the window on, if the next one can
be allocated and its base is a word. -/
theorem relocate_of_swapped_eq {size : Nat}
    (hswap : scanner.swapped mode size = scanner.pool.exchange scanner.window.buffer
      scanner.retained (min scanner.consumed scanner.retained) size)
    (hn : scanner.nextSize scanner.residual = .ok size) (hsize : size ≤ Word.maxAllocation)
    (hbase : mode = .checked → scanner.window.base + scanner.retained < Word.bound)
    (target : Nat) :
    ∃ capacity, scanner.relocate mode target =
      ⟨.ok (), scanner.rebase ⟨scanner.window.bytes.drop scanner.retained, capacity⟩
          (scanner.swapped mode size).pool size,
        scanner.moving size :: (scanner.swapped mode size).log⟩ := by
  obtain ⟨capacity, hok⟩ := scanner.pool.result_exchange scanner.window.buffer scanner.retained
    (min scanner.consumed scanner.retained) hsize
  rw [← hswap] at hok
  rcases scanner.relocate_cases mode target with
    ⟨limit, he, -⟩ | ⟨size', hn', ⟨buffer, hb, hr⟩ | ⟨fault, left, ⟨hf, -⟩ | ⟨-, hadd⟩, -⟩⟩
  · simp [hn] at he
  · cases Except.ok.inj (hn.symm.trans hn')
    cases Except.ok.inj (hok.symm.trans hb)
    exact ⟨capacity, hr⟩
  · cases Except.ok.inj (hn.symm.trans hn')
    simp [hok] at hf
  · obtain ⟨hm, -, hle⟩ := Mode.add_eq_error hadd
    exact absurd (hbase hm) (Nat.not_lt.2 hle)

/-! ## Moves that keep the window -/

/-- A move leaves a window without its buffer as it is. -/
theorem inherits_relocate (mode : Mode) (scanner : Scanner σ) (target : Nat) :
    (scanner.relocate mode target).scanner.window.Inherits scanner.window := by
  rcases scanner.relocate_cases mode target with
    ⟨limit, -, hr⟩ | ⟨size, -, ⟨buffer, -, hr⟩ | ⟨fault, left, -, hr⟩⟩
  · rw [hr]
    exact .refl _
  · rw [hr]
    exact .refl _
  · rw [hr]
    exact Window.inherits_lose _ _ _

/-- A move that keeps the window is not stopped. -/
theorem result_relocate_of_kept {target : Nat}
    (hk : (scanner.relocate mode target).scanner.window.Kept) :
    (scanner.relocate mode target).result = .ok () := by
  rcases scanner.relocate_cases mode target with
    ⟨limit, -, hr⟩ | ⟨size, -, ⟨buffer, -, hr⟩ | ⟨fault, left, -, hr⟩⟩
  · rw [hr, refuse]
  · rw [hr]
  · rw [hr] at hk
    exact absurd hk Window.not_kept_lose

/-- The window is refused to grow or moves on: there is no other way to keep it. -/
theorem relocate_cases_of_kept {target : Nat}
    (hk : (scanner.relocate mode target).scanner.window.Kept) :
    (∃ limit, scanner.nextSize scanner.residual = .error limit ∧
      scanner.relocate mode target = scanner.refuse target limit) ∨
    ∃ size buffer, scanner.nextSize scanner.residual = .ok size ∧
      (scanner.swapped mode size).result = .ok buffer ∧
      scanner.relocate mode target =
        ⟨.ok (), scanner.rebase buffer (scanner.swapped mode size).pool size,
          scanner.moving size :: (scanner.swapped mode size).log⟩ := by
  rcases scanner.relocate_cases mode target with
    hrefused | ⟨size, hn, ⟨buffer, hb, hr⟩ | ⟨fault, left, -, hr⟩⟩
  · exact .inl hrefused
  · exact .inr ⟨size, buffer, hn, hb, hr⟩
  · rw [hr] at hk
    exact absurd hk Window.not_kept_lose

/-- A sound scanner whose next window can be allocated keeps its window. -/
theorem Sound.kept_relocate (h : scanner.Sound delivered) (hk : scanner.window.Kept)
    (hcount : scanner.Countable mode delivered) {target : Nat}
    (hlog : Affordable (scanner.relocate mode target).log) :
    (scanner.relocate mode target).scanner.window.Kept := by
  cases hn : scanner.nextSize scanner.residual with
  | error limit =>
    simp only [relocate, hn, refuse]
    exact hk
  | ok size =>
    obtain ⟨capacity, hr⟩ := relocate_of_swapped_eq (h.swapped_eq hk.placed mode size) hn
      (le_of_affordable_relocate hn hlog) (h.retained_lt hk.placed hcount) target
    rw [hr]
    exact hk

variable [Source σ]

@[simp] theorem result_draw (scanner : Scanner σ) : scanner.draw.result = .ok () := by
  rw [draw]
  simp only []
  split
  · split <;> rfl
  · rfl

/-- A read keeps the window just if it was kept before. -/
@[simp] theorem kept_draw (scanner : Scanner σ) :
    scanner.draw.scanner.window.Kept ↔ scanner.window.Kept := by
  obtain ⟨source, status, bytes, room, hs, -⟩ := scanner.draw_cases
  rw [hs]
  exact Iff.rfl

/-- A pass with a window that has its buffer is a read, behind a move if it is full. -/
theorem refill_of_kept (hk : scanner.window.Kept) (mode : Mode) (target : Nat) :
    scanner.refill mode target =
      if scanner.window.spare = [] then
        (scanner.relocate mode target).bind fun _ scanner =>
          if scanner.status.isActive then scanner.draw else .pure () scanner
      else scanner.draw := by
  rw [refill, if_neg (Nat.not_lt.2 hk.filled_le)]

/-- A move whose pass keeps the window keeps it. -/
theorem kept_bind_relocate {target : Nat}
    (hk : ((scanner.relocate mode target).bind fun _ scanner =>
      if scanner.status.isActive then scanner.draw else .pure () scanner).scanner.window.Kept) :
    (scanner.relocate mode target).scanner.window.Kept := by
  cases hr : (scanner.relocate mode target).result with
  | error fault => rwa [Outcome.bind_of_error hr] at hk
  | ok u =>
    rw [Outcome.bind_of_ok hr, Outcome.scanner_after] at hk
    split at hk
    · exact (kept_draw _).1 hk
    · exact hk

/-- A read leaves the buffer as it is, lost or not. -/
theorem inherits_draw (scanner : Scanner σ) :
    scanner.draw.scanner.window.Inherits scanner.window := by
  obtain ⟨source, status, bytes, room, hs, -⟩ := scanner.draw_cases
  rw [hs]
  exact .refl _

/-- A pass leaves a window without its buffer as it is. -/
theorem inherits_refill (mode : Mode) (scanner : Scanner σ) (target : Nat) :
    (scanner.refill mode target).scanner.window.Inherits scanner.window := by
  have hmove := inherits_relocate mode scanner target
  rw [refill]
  split
  · exact .refl _
  split
  · cases hr : (scanner.relocate mode target).result with
    | error fault => rwa [Outcome.bind_of_error hr]
    | ok u =>
      rw [Outcome.bind_of_ok hr, Outcome.scanner_after]
      split
      · exact (inherits_draw _).trans hmove
      · exact hmove
  · exact inherits_draw scanner

theorem Passes.inherits {outcome : Outcome σ Unit} (hp : Passes mode scanner outcome) :
    outcome.scanner.window.Inherits scanner.window := by
  induction hp with
  | none => exact .refl _
  | stuck _ _ ih => exact ih
  | more _ _ _ _ ih => exact (inherits_refill _ _ _).trans ih

/-- What keeps the window going on kept it before. -/
theorem kept_of_bind {α β : Type} (mode : Mode) {outcome : Outcome σ α}
    {next : α → Scanner σ → Outcome σ β}
    (hnext : ∀ a, Passes mode outcome.scanner (next a outcome.scanner).forget)
    (hk : (outcome.bind next).scanner.window.Kept) : outcome.scanner.window.Kept := by
  cases hr : outcome.result with
  | error fault => rwa [Outcome.bind_of_error hr] at hk
  | ok a =>
    rw [Outcome.bind_of_ok hr] at hk
    exact (hnext a).inherits.kept hk

/-- A pass that keeps the window is not stopped. -/
theorem result_refill_of_kept {target : Nat}
    (hk : (scanner.refill mode target).scanner.window.Kept) :
    (scanner.refill mode target).result = .ok () := by
  have hbefore := (inherits_refill mode scanner target).kept hk
  rw [refill_of_kept hbefore] at hk ⊢
  by_cases hs : scanner.window.spare = []
  · rw [if_pos hs] at hk ⊢
    rw [Outcome.bind_of_ok (result_relocate_of_kept (kept_bind_relocate hk)), Outcome.result_after]
    split
    · exact result_draw _
    · rfl
  · rw [if_neg hs]
    exact result_draw scanner

/-- **Looking ahead is not stopped** while the window is kept. -/
theorem Passes.result_of_kept {outcome : Outcome σ Unit} (hp : Passes mode scanner outcome)
    (hk : outcome.scanner.window.Kept) : outcome.result = .ok () := by
  cases hp with
  | none => rfl
  | stuck _ hlost => exact absurd hk hlost
  | more _ _ _ _ => exact result_refill_of_kept hk

omit [Source σ] in
/-- A move that is not stopped keeps the window. -/
theorem kept_relocate_of_ok (hk : scanner.window.Kept) {target : Nat}
    (hok : (scanner.relocate mode target).result = .ok ()) :
    (scanner.relocate mode target).scanner.window.Kept := by
  rcases scanner.relocate_cases mode target with
    ⟨limit, -, hr⟩ | ⟨size, -, ⟨buffer, -, hr⟩ | ⟨fault, left, -, hr⟩⟩
  · rw [hr]
    exact hk
  · rw [hr]
    exact hk
  · rw [hr] at hok
    cases hok

/-- So does a pass that is not stopped. -/
theorem kept_refill_of_ok (hk : scanner.window.Kept) {target : Nat}
    (hok : (scanner.refill mode target).result = .ok ()) :
    (scanner.refill mode target).scanner.window.Kept := by
  rw [refill_of_kept hk] at hok ⊢
  by_cases hs : scanner.window.spare = []
  · rw [if_pos hs] at hok ⊢
    cases hmove : (scanner.relocate mode target).result with
    | error fault =>
      rw [Outcome.bind_of_error hmove] at hok
      cases hok
    | ok u =>
      have hmoved := kept_relocate_of_ok hk hmove
      rw [Outcome.bind_of_ok hmove, Outcome.scanner_after]
      split
      · exact (kept_draw _).2 hmoved
      · exact hmoved
  · rw [if_neg hs]
    exact (kept_draw _).2 hk

/-- Neither does a look ahead that is not stopped lose the window. -/
theorem Passes.kept_of_ok {outcome : Outcome σ Unit} (hp : Passes mode scanner outcome)
    (hk : scanner.window.Kept) (hok : outcome.result = .ok ()) : outcome.scanner.window.Kept := by
  induction hp with
  | none => exact hk
  | stuck => exact nomatch hok
  | more _ hr _ _ ih => exact kept_refill_of_ok (ih hr) hok

/-! ## When the window is kept -/

theorem Sound.kept_refill (h : scanner.Sound delivered) (hk : scanner.window.Kept)
    (hcount : scanner.Countable mode delivered) {target : Nat}
    (hlog : Affordable (scanner.refill mode target).log) :
    (scanner.refill mode target).scanner.window.Kept := by
  rw [refill_of_kept hk] at hlog ⊢
  by_cases hs : scanner.window.spare = []
  · rw [if_pos hs] at hlog ⊢
    have hmoved := h.kept_relocate hk hcount hlog.of_bind
    rw [Outcome.bind_of_ok (result_relocate_of_kept hmoved), Outcome.scanner_after]
    split
    · exact (kept_draw _).2 hmoved
    · exact hmoved
  · rw [if_neg hs]
    exact (kept_draw scanner).2 hk

/-- **The window is kept** by every look ahead, as long as the windows can be allocated
and, in a checked run, the bytes shifted or delivered can be counted. -/
theorem Sound.kept_passes (h : scanner.Sound delivered) (hk : scanner.window.Kept)
    {outcome : Outcome σ Unit} (hp : Passes mode scanner outcome) (hlog : Affordable outcome.log)
    (hcount : scanner.Countable mode (delivered ++ deliveredBytes outcome.log)) :
    outcome.scanner.window.Kept := by
  induction hp with
  | none => exact hk
  | stuck hp hlost ih => exact absurd (ih hlog hcount) hlost
  | more hp _ _ _ ih =>
    rw [Outcome.log_after, affordable_append] at hlog
    rw [Outcome.log_after, deliveredBytes_append, ← List.append_assoc] at hcount
    obtain ⟨hsound, hsteady⟩ := h.passes hp
    refine hsound.kept_refill (ih hlog.1 (hcount.mono (Nat.le_refl _))) ?_ hlog.2
    exact hcount.mono (Nat.le_of_eq hsteady.shifted)

/-! ## After the end -/

theorem requests_after_of_not_active (hi : scanner.status.isActive = false) (mode : Mode)
    (ops : List Op) : requests (scanner.after mode ops).2 = [] :=
  (quiet_after_of_not_active hi mode ops).requests_eq

end Scanner
end Lookahead
