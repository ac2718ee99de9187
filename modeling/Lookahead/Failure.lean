import Lookahead.ReadError

/-!
# Failures

What a scanner or its configuration reports. Only `exhausted` is a normal
condition: the input is over, and bytes already buffered may still be scanned.

## Main definitions

* `Failure`: the conditions, with `Failure.message` and `Failure.cause?`.
-/
namespace Lookahead

/-- The conditions that a scanner or its configuration reports. -/
inductive Failure where
  /-- The source has no more bytes. -/
  | exhausted
  /-- A read failed. -/
  | source (error : ReadError)
  /-- One token needs a window of `requested` bytes, more than the limit. -/
  | limitExceeded (requested limit : Nat)
  /-- A configuration is refused, for the reason given. -/
  | invalidConfig (reason : String)
deriving DecidableEq

namespace Failure

/-- The wording of a failure. -/
def message : Failure → String
  | exhausted => "end of input"
  | source error => "io error: " ++ error.text
  | limitExceeded requested limit => s!"buffer exceeded: {requested} bytes (max {limit})"
  | invalidConfig reason => "invalid config: " ++ reason

/-- Whether this is the end of the input, the one failure that is expected. -/
def isExhausted : Failure → Bool
  | exhausted => true
  | _ => false

/-- The error of the source behind a failure, if there is one. -/
def cause? : Failure → Option ReadError
  | source error => some error
  | _ => none

theorem isExhausted_iff {failure : Failure} : failure.isExhausted = true ↔ failure = exhausted := by
  cases failure <;> simp [isExhausted]

end Failure
end Lookahead
