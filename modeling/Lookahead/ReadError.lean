/-!
# Errors of a source

A read can fail for one of a fixed set of reasons. An error carries its reason
and possibly a wording of its own; without one, the wording of the reason is
used.

## Main definitions

* `ReadError.Kind`: the reasons, and `ReadError.Kind.text`, their wording.
* `ReadError`: a reason with an optional wording, and `ReadError.text`.
-/
namespace Lookahead

/-- The reasons for which a read can fail. -/
inductive ReadError.Kind where
  | notFound
  | permissionDenied
  | connectionRefused
  | connectionReset
  | connectionAborted
  | notConnected
  | addressInUse
  | brokenPipe
  | alreadyExists
  | wouldBlock
  | invalidInput
  | invalidData
  | timedOut
  | writeZero
  | interrupted
  | unsupported
  | unexpectedEnd
  | outOfMemory
  | other
deriving DecidableEq

/-- The wording of a reason. -/
def ReadError.Kind.text : ReadError.Kind → String
  | notFound => "entity not found"
  | permissionDenied => "permission denied"
  | connectionRefused => "connection refused"
  | connectionReset => "connection reset"
  | connectionAborted => "connection aborted"
  | notConnected => "not connected"
  | addressInUse => "address in use"
  | brokenPipe => "broken pipe"
  | alreadyExists => "entity already exists"
  | wouldBlock => "operation would block"
  | invalidInput => "invalid input parameter"
  | invalidData => "invalid data"
  | timedOut => "timed out"
  | writeZero => "write zero"
  | interrupted => "operation interrupted"
  | unsupported => "unsupported"
  | unexpectedEnd => "unexpected end of file"
  | outOfMemory => "out of memory"
  | other => "other error"

/-- A failed read: its reason, and a wording if the source gave one. -/
structure ReadError where
  kind : ReadError.Kind
  message? : Option String := none
deriving DecidableEq

namespace ReadError

/-- The wording given by the source, else that of the reason. -/
def text (error : ReadError) : String := error.message?.getD error.kind.text

/-- An interruption asks for nothing but another try. -/
def isInterruption (error : ReadError) : Bool := error.kind = .interrupted

end ReadError
end Lookahead
