import Lookahead.Proofs.Scanner.History

/-!
# Induction along passes and runs

Looking ahead moves the window and reads, in turn, and nothing else changes a scanner
in between. So a condition on a scanner and on what it has logged is kept by every look
ahead if each move and each read keeps it. It is kept by whole runs if the operations
that do not look ahead keep it as well.

A move is made when the window is full, and a read when there is room for a byte, or
when the window has lost its buffer. Both find the source active and the scanner at the
place where the look ahead began.

## Main definitions

* `Scanner.Midway`: a scanner in the course of a look ahead.

## Main statements

* `Scanner.Sound.passes_induction`: induction on the moves and reads of a look ahead.
* `Scanner.Sound.run_induction`: induction on those of a run and on its other operations.
-/
namespace Lookahead.Scanner

variable {σ : Type} {scanner here : Scanner σ} {delivered : List UInt8} {log : List Event}
  {mode : Mode} {motive : Scanner σ → List Event → Prop}

/-- The second scanner is one that a look ahead of the first may come to, and its source
has not ended. The log says what happened in between. -/
structure Midway (scanner here : Scanner σ) (delivered : List UInt8) (log : List Event) :
    Prop where
  sound : here.Sound (delivered ++ deliveredBytes log)
  steady : Steady scanner here
  active : here.status.isActive = true

/-- A window that has moved on is followed by a read, unless the move ended the source. -/
theorem Midway.relocate (h : Midway scanner here delivered log)
    (hroom : here.window.filled ≤ here.window.size) {target : Nat}
    (ha : (here.relocate mode target).scanner.status.isActive = true) :
    Midway scanner (here.relocate mode target).scanner delivered
      (log ++ (here.relocate mode target).log) := by
  obtain ⟨hsound, hsteady⟩ := h.sound.reading_relocate hroom h.active mode target
  refine ⟨?_, h.steady.trans hsteady, ha⟩
  rwa [deliveredBytes_append, ← List.append_assoc]

variable [Source σ]

/-- **What moves and reads keep, every look ahead keeps.** -/
theorem Sound.passes_induction (h : scanner.Sound delivered) (start : motive scanner [])
    (move : ∀ here log target, Midway scanner here delivered log → here.window.spare = [] →
      here.window.filled ≤ here.window.size → motive here log →
        motive (here.relocate mode target).scanner (log ++ (here.relocate mode target).log))
    (read : ∀ here log, Midway scanner here delivered log →
      (here.window.Kept → here.window.spare ≠ []) →
        motive here log → motive here.draw.scanner (log ++ here.draw.log))
    {outcome : Outcome σ Unit} (hp : Passes mode scanner outcome) :
    motive outcome.scanner outcome.log := by
  induction hp with
  | none => exact start
  | stuck _ _ ih => exact ih
  | @more outcome target hp _ ha _ ih =>
    obtain ⟨hsound, hsteady⟩ := h.passes hp
    have hmid : Midway scanner outcome.scanner delivered outcome.log := ⟨hsound, hsteady, ha⟩
    rw [Outcome.scanner_after, Outcome.log_after, refill]
    by_cases hlost : outcome.scanner.window.size < outcome.scanner.window.filled
    · rw [if_pos hlost]
      simpa [Outcome.stop] using ih
    have hroom := Nat.le_of_not_lt hlost
    rw [if_neg hlost]
    by_cases hfull : outcome.scanner.window.spare = []
    · rw [if_pos hfull]
      have hmoved := move _ _ target hmid hfull hroom ih
      cases hr : (outcome.scanner.relocate mode target).result with
      | error fault =>
        rw [Outcome.bind_of_error hr]
        exact hmoved
      | ok u =>
        rw [Outcome.bind_of_ok hr, Outcome.scanner_after, Outcome.log_after, ← List.append_assoc]
        split
        · rename_i hactive
          exact read _ _ (hmid.relocate hroom hactive)
            (fun hk => hsound.spare_of_relocate ha hk hactive) hmoved
        · rw [Outcome.scanner_pure, Outcome.log_pure, List.append_nil]
          exact hmoved
    · rw [if_neg hfull]
      exact read _ _ hmid (fun _ => hfull) ih

/-- **What moves, reads and the other operations keep, every run keeps.** -/
theorem Sound.run_induction (h : scanner.Sound delivered) (start : motive scanner [])
    (move : ∀ here log target, here.Sound (delivered ++ deliveredBytes log) →
      here.status.isActive = true → here.window.spare = [] →
      here.window.filled ≤ here.window.size → motive here log →
        motive (here.relocate mode target).scanner (log ++ (here.relocate mode target).log))
    (read : ∀ here log, here.Sound (delivered ++ deliveredBytes log) →
      here.status.isActive = true → (here.window.Kept → here.window.spare ≠ []) →
      motive here log → motive here.draw.scanner (log ++ here.draw.log))
    (quiet : ∀ here log op, here.Sound (delivered ++ deliveredBytes log) → op.looks = false →
      motive here log → motive (here.apply mode op).scanner (log ++ (here.apply mode op).log))
    (ops : List Op) : motive (scanner.after mode ops).1 (scanner.after mode ops).2 := by
  induction ops using List.reverseRecOn with
  | nil => exact start
  | append_singleton ops op ih =>
    have hsound := h.run mode ops
    rw [after_concat]
    cases hop : op.looks with
    | false => exact quiet _ _ op hsound hop ih
    | true =>
      have hassoc (late : List Event) :
          delivered ++ deliveredBytes (scanner.after mode ops).2 ++ deliveredBytes late =
            delivered ++ deliveredBytes ((scanner.after mode ops).2 ++ late) := by
        rw [deliveredBytes_append, List.append_assoc]
      refine hsound.passes_induction
        (motive := fun here log => motive here ((scanner.after mode ops).2 ++ log)) ?_ ?_ ?_
        (passes_apply mode _ hop)
      · rwa [List.append_nil]
      · intro here log target hmid hfull hroom hkept
        rw [← List.append_assoc]
        exact move here _ target (hassoc log ▸ hmid.sound) hmid.active hfull hroom hkept
      · intro here log hmid hroom hkept
        rw [← List.append_assoc]
        exact read here _ (hassoc log ▸ hmid.sound) hmid.active hroom hkept

end Lookahead.Scanner
