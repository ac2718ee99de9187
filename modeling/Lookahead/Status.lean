import Lookahead.Failure

/-!
# Where a source stands

A source is active until it ends or fails, and stays ended or failed from then
on: the first outcome wins.

## Main definitions

* `Status`: active, exhausted or failed.
* `Status.finish`: the transition out of `active`.
-/
namespace Lookahead

/-- Where the source of a scanner stands. -/
inductive Status where
  /-- The source may still deliver bytes. -/
  | active
  /-- The source is over, or the input was in memory from the start. -/
  | exhausted
  /-- The source failed, or a token outgrew the window. -/
  | failed (failure : Failure)
deriving DecidableEq

namespace Status

/-- Whether the source may still be asked. -/
def isActive : Status → Bool
  | active => true
  | _ => false

/-- Ends an active source: normally without a failure or on `exhausted`, else
with the failure. A source that has ended keeps its first outcome. -/
def finish : Status → Option Failure → Status
  | active, none => exhausted
  | active, some .exhausted => exhausted
  | active, some failure => failed failure
  | status, _ => status

/-- The failure of a failed source. -/
def failure? : Status → Option Failure
  | failed failure => some failure
  | _ => none

@[simp] theorem isActive_active : active.isActive = true := rfl
@[simp] theorem isActive_exhausted : exhausted.isActive = false := rfl
@[simp] theorem isActive_failed (failure : Failure) : (failed failure).isActive = false := rfl

theorem isActive_iff {status : Status} : status.isActive = true ↔ status = active := by
  cases status <;> simp

@[simp] theorem isActive_finish (status : Status) (outcome : Option Failure) :
    (status.finish outcome).isActive = false := by
  cases status with
  | active => rcases outcome with _ | _ | _ | _ | _ <;> rfl
  | exhausted => rfl
  | failed failure => rfl

theorem finish_of_not_active {status : Status} (h : status.isActive = false)
    (outcome : Option Failure) : status.finish outcome = status := by
  cases status <;> simp_all [finish]

end Status
end Lookahead
