import Lookahead.Proofs.Scanner.Induction
import Lookahead.Proofs.Scanner.Storage

/-!
# The size of the window

Every move of the window announces the size of the one that follows, so what holds
of the first size and of all sizes announced holds of the window at the end. A
scanner with a limit announces no size beyond it. If the limit is one that can be
allocated, all its windows are, and no promise about a log is needed.

## Main definitions

* `Announces`: all windows announced in a log are of a kind.

## Main statements

* `Scanner.Sound.size_run`: what holds of all sizes announced holds of the window.
* `Scanner.Sound.size_le_after`: a window never becomes smaller.
* `Scanner.Sound.announces_run`: what a scanner with a limit announces is within it.
-/
namespace Lookahead

/-- The sizes of all windows announced in a log are of a kind. -/
def Announces (kind : Nat → Prop) (log : List Event) : Prop :=
  ∀ event ∈ log, ∀ size ∈ event.size?, kind size

instance (kind : Nat → Prop) [DecidablePred kind] (log : List Event) :
    Decidable (Announces kind log) :=
  inferInstanceAs (Decidable (∀ event ∈ log, ∀ size ∈ event.size?, kind size))

section
variable {kind : Nat → Prop}

@[simp] theorem announces_append {first last : List Event} :
    Announces kind (first ++ last) ↔ Announces kind first ∧ Announces kind last := by
  simp [Announces, or_imp, forall_and]

/-- A log that announces nothing announces nothing of another kind. -/
theorem announces_of_size {log : List Event} (h : ∀ event ∈ log, event.size? = none) :
    Announces kind log := by
  intro event he size hs
  rw [h event he] at hs
  cases hs

/-- If a limit can be allocated, so can every window within it. -/
theorem Announces.affordable {limit? : Option Nat} {limit : Nat} {log : List Event}
    (h : Announces (fun size => ∀ limit ∈ limit?, size ≤ limit) log) (hlimit : limit? = some limit)
    (hle : limit ≤ Word.maxAllocation) : Affordable log :=
  fun event he size hs => Nat.le_trans (h event he size hs limit hlimit) hle

end

namespace Scanner
variable {σ : Type} {scanner : Scanner σ} {delivered : List UInt8} {mode : Mode} {target : Nat}

/-! ## Moves -/

/-- A move announces the window that follows and no other. -/
theorem announces_moving (kind : Nat → Prop) {size : Nat} :
    Announces kind (scanner.moving size :: (scanner.swapped mode size).log) ↔ kind size := by
  constructor
  · exact fun h => h _ List.mem_cons_self _ rfl
  · intro h event he
    rcases List.mem_cons.1 he with rfl | he
    · rintro _ ⟨⟩
      exact h
    · intro n hn
      rw [(Pool.idle_swap _ _ _ _ _ _ event he).size] at hn
      cases hn

/-- The window that follows is as large as announced. -/
theorem size_rebase {buffer : Buffer} {pool : Pool} {size : Nat} (hk : scanner.window.Kept)
    (hb : buffer.bytes = scanner.window.bytes.drop scanner.retained)
    (hr : scanner.residual < size) : (scanner.rebase buffer pool size).window.size = size :=
  hk.size_advance (length_eq_residual hb ▸ Nat.le_of_lt hr)

/-- A move leads to a window that was announced, or to none. -/
theorem Sound.size_relocate (h : scanner.Sound delivered) (kind : Nat → Prop)
    (ha : scanner.status.isActive = true) (hs : kind scanner.window.size)
    (hk : (scanner.relocate mode target).scanner.window.Kept)
    (hlog : Announces kind (scanner.relocate mode target).log) :
    kind (scanner.relocate mode target).scanner.window.size := by
  have hbefore := (inherits_relocate mode scanner target).kept hk
  rcases relocate_cases_of_kept hk with ⟨limit, -, hr⟩ | ⟨size, buffer, hn, hb, hr⟩
  · rw [hr]
    exact hs
  · rw [hr] at hlog ⊢
    have hroom := residual_lt_nextSize hn hbefore (h.room hbefore ha)
    change kind (scanner.rebase buffer _ size).window.size
    rw [size_rebase hbefore (Pool.bytes_of_swap hb) hroom]
    exact (announces_moving kind).1 hlog

/-- A move that keeps the window does not make it smaller. -/
theorem Sound.size_le_relocate (h : scanner.Sound delivered)
    (ha : scanner.status.isActive = true)
    (hk : (scanner.relocate mode target).scanner.window.Kept) :
    scanner.window.size ≤ (scanner.relocate mode target).scanner.window.size := by
  have hbefore := (inherits_relocate mode scanner target).kept hk
  rcases relocate_cases_of_kept hk with ⟨limit, -, hr⟩ | ⟨size, buffer, hn, hb, hr⟩
  · simp [hr, refuse]
  · rw [hr]
    change _ ≤ (scanner.rebase buffer _ size).window.size
    rw [size_rebase hbefore (Pool.bytes_of_swap hb)
      (residual_lt_nextSize hn hbefore (h.room hbefore ha))]
    exact (nextSize_le hn h.within).1

/-- A scanner with a limit announces only windows within it. -/
theorem announces_relocate (mode : Mode) (scanner : Scanner σ) (target : Nat) :
    Announces (fun size => ∀ limit ∈ scanner.limit?, size ≤ limit)
      (scanner.relocate mode target).log := by
  rcases scanner.relocate_cases mode target with
    ⟨limit, -, hr⟩ | ⟨size, hn, ⟨buffer, -, hr⟩ | ⟨fault, left, -, hr⟩⟩
  · rw [hr]
    exact announces_of_size (by simp [refuse, Event.size?])
  · rw [hr]
    exact (announces_moving _).2 (nextSize_within hn)
  · rw [hr]
    exact (announces_moving _).2 (nextSize_within hn)

/-! ## Passes -/

section
variable [Source σ]

theorem size?_draw (scanner : Scanner σ) : ∀ event ∈ scanner.draw.log, event.size? = none :=
  fun event he => (scanner.unsized_draw event he).1

/-- A read leaves the size of the window as it is. -/
theorem size_draw (scanner : Scanner σ) :
    scanner.draw.scanner.window.size = scanner.window.size := by
  obtain ⟨source, status, bytes, room, hs, -, hlen, -⟩ := scanner.draw_cases
  rw [hs]
  refine Window.size_congr rfl ?_
  simp only [Window.filled, Buffer.length_append]
  omega

theorem Sound.size_passes (h : scanner.Sound delivered) (kind : Nat → Prop)
    (hs : kind scanner.window.size) {outcome : Outcome σ Unit} (hp : Passes mode scanner outcome)
    (hk : outcome.scanner.window.Kept) (hlog : Announces kind outcome.log) :
    kind outcome.scanner.window.size := by
  refine h.passes_induction
    (motive := fun here log => here.window.Kept → Announces kind log → kind here.window.size)
    (fun _ _ => hs) ?_ ?_ hp hk hlog
  · intro here log target hmid _ _ ih hk hlog
    rw [announces_append] at hlog
    have hbefore := (inherits_relocate mode here target).kept hk
    exact hmid.sound.size_relocate kind hmid.active (ih hbefore hlog.1) hk hlog.2
  · intro here log _ _ ih hk hlog
    rw [announces_append] at hlog
    rw [size_draw]
    exact ih ((kept_draw here).1 hk) hlog.1

theorem Sound.announces_passes (h : scanner.Sound delivered) {outcome : Outcome σ Unit}
    (hp : Passes mode scanner outcome) :
    Announces (fun size => ∀ limit ∈ scanner.limit?, size ≤ limit) outcome.log := by
  refine h.passes_induction (motive := fun _ log =>
    Announces (fun size => ∀ limit ∈ scanner.limit?, size ≤ limit) log) ?_ ?_ ?_ hp
  · exact announces_of_size (List.forall_mem_nil _)
  · intro here log target hmid _ _ ih
    rw [announces_append, ← hmid.steady.limit]
    exact ⟨hmid.steady.limit ▸ ih, announces_relocate mode here target⟩
  · intro here log _ _ ih
    exact announces_append.2 ⟨ih, announces_of_size (size?_draw here)⟩

/-! ## Runs -/

theorem Sound.size_apply (h : scanner.Sound delivered) (kind : Nat → Prop)
    (hs : kind scanner.window.size) {op : Op}
    (hk : (scanner.apply mode op).scanner.window.Kept)
    (hlog : Announces kind (scanner.apply mode op).log) :
    kind (scanner.apply mode op).scanner.window.size := by
  rcases passes_or_quiet mode scanner op with hp | hq
  · exact h.size_passes kind hs hp hk hlog
  · rwa [hq.window]

/-- What holds of the first window and of all that are announced holds of the last, as long
as the window is kept. -/
theorem Sound.size_run (h : scanner.Sound delivered) (kind : Nat → Prop)
    (hs : kind scanner.window.size) {ops : List Op}
    (hk : (scanner.after mode ops).1.window.Kept)
    (hlog : Announces kind (scanner.after mode ops).2) :
    kind (scanner.after mode ops).1.window.size := by
  induction ops using List.reverseRecOn with
  | nil => exact hs
  | append_singleton ops op ih =>
    have hbefore := kept_of_after hk
    rw [after_concat] at hk hlog ⊢
    rw [announces_append] at hlog
    exact (h.run mode ops).size_apply kind (ih hbefore hlog.1) hk hlog.2

/-- **A window that is kept never becomes smaller.** -/
theorem Sound.size_le_after (h : scanner.Sound delivered) {ops : List Op}
    (hk : (scanner.after mode ops).1.window.Kept) :
    scanner.window.size ≤ (scanner.after mode ops).1.window.size := by
  refine h.run_induction
    (motive := fun here _ => here.window.Kept → scanner.window.size ≤ here.window.size)
    ?_ ?_ ?_ ?_ ops hk
  · exact fun _ => Nat.le_refl _
  · intro here log target hsound ha _ _ ih hk
    exact Nat.le_trans (ih ((inherits_relocate mode here target).kept hk))
      (hsound.size_le_relocate ha hk)
  · intro here log _ _ _ ih hk
    rw [size_draw]
    exact ih ((kept_draw here).1 hk)
  · intro here log op _ hop ih
    rwa [(quiet_apply mode here hop).window]

theorem limit_apply (h : scanner.Sound delivered) (op : Op) :
    (scanner.apply mode op).scanner.limit? = scanner.limit? := by
  rcases passes_or_quiet mode scanner op with hp | hq
  · exact (h.passes hp).steady.limit
  · exact hq.limit

theorem limit_after (h : scanner.Sound delivered) (ops : List Op) :
    (scanner.after mode ops).1.limit? = scanner.limit? := by
  induction ops using List.reverseRecOn with
  | nil => rfl
  | append_singleton ops op ih => rw [after_concat, limit_apply (h.run mode ops), ih]

/-- A scanner with a limit announces only windows within it. -/
theorem Sound.announces_run (h : scanner.Sound delivered) (ops : List Op) :
    Announces (fun size => ∀ limit ∈ scanner.limit?, size ≤ limit)
      (scanner.after mode ops).2 := by
  induction ops using List.reverseRecOn with
  | nil => exact announces_of_size (List.forall_mem_nil _)
  | append_singleton ops op ih =>
    rw [after_concat, announces_append]
    refine ⟨ih, ?_⟩
    rcases passes_or_quiet mode (scanner.after mode ops).1 op with hp | hq
    · have hlog := (h.run mode ops).announces_passes hp
      rwa [limit_after h ops] at hlog
    · exact announces_of_size fun event he => (hq.log event he).size

end

end Scanner
end Lookahead
