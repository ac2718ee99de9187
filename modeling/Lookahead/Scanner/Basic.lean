import Lookahead.Event
import Lookahead.Fault
import Lookahead.Pool.Basic
import Lookahead.Source.Basic
import Lookahead.Status
import Lookahead.Window

/-!
# Scanners

A scanner moves three positions over its window, each an index into it:

* `consumed`, the first byte that is not freed;
* `start`, where the token begins;
* `frontier`, up to where it has been scanned.

They never cross: `consumed ≤ start ≤ frontier`. They may all lie beyond the
buffered bytes, because a caller may move on before looking.

An operation that reads or can break a contract leads to an `Outcome`: its
result, the scanner afterwards and a log of what happened. A fault leaves a
scanner behind as well, and the next operation goes on from it.

## Main definitions

* `Scanner`, with `Scanner.pos`, `Scanner.bytes`, `Scanner.view`, `Scanner.isEof`,
  `Scanner.err` and `Scanner.offset`.
* `Scanner.shiftedTotal` and `Scanner.freedTotal`: how much of the stream has
  been shifted and freed.
* `Outcome`, with `Outcome.bind` and `Outcome.map`.
-/
namespace Lookahead

/-- A window on a stream of bytes, with the token that is being scanned. -/
structure Scanner (σ : Type) where
  source : σ
  status : Status
  /-- Buffers left behind with bytes that are not freed. -/
  pool : Pool
  /-- The size that no window exceeds, if there is one. -/
  limit? : Option Nat
  window : Window
  /-- The first byte of the window that is not freed. -/
  consumed : Nat
  /-- The first byte of the token. -/
  start : Nat
  /-- The byte that is scanned next. -/
  frontier : Nat

variable {σ : Type}

namespace Scanner

/-- How far the frontier is from the token start. -/
def pos (scanner : Scanner σ) : Nat := scanner.frontier - scanner.start

/-- The selection: the bytes from the token start up to the frontier, as far as
they are buffered. -/
def bytes (scanner : Scanner σ) : List UInt8 :=
  scanner.window.segment scanner.start scanner.frontier

/-- The selection, as it is read from the buffer: there is none if the buffer was
lost. -/
def view (scanner : Scanner σ) : Except Fault (List UInt8) :=
  let stop := min scanner.frontier scanner.window.filled
  if scanner.window.size < stop then .error (.outside (.upTo stop) scanner.window.size)
  else .ok scanner.bytes

/-- The selection, if the input is in memory and the bytes outlive the scanner. -/
def lentBytes? (scanner : Scanner σ) : Option (List UInt8) :=
  if scanner.window.lent then some scanner.bytes else none

/-- Whether the source will not be asked again. The window stays where it is from
then on. -/
def isEof (scanner : Scanner σ) : Bool := !scanner.status.isActive

/-- The condition that ended the input, if it did. The end of the input is
reported only once the frontier has reached it; a failure always. -/
def err (scanner : Scanner σ) : Option Failure :=
  match scanner.status with
  | .active => none
  | .exhausted => if scanner.frontier < scanner.window.filled then none else some .exhausted
  | .failed failure => some failure

/-- The stream offset of the token start, as a word. -/
def offset (mode : Mode) (scanner : Scanner σ) : Except Fault Nat :=
  mode.add scanner.window.base scanner.start

/-- How many bytes of the stream have been shifted or skipped. -/
def shiftedTotal (scanner : Scanner σ) : Nat := scanner.window.origin + scanner.start

/-- How many bytes of the stream come before the frontier. -/
def frontierOffset (scanner : Scanner σ) : Nat := scanner.window.origin + scanner.frontier

/-- How many bytes of the stream have been freed. -/
def freedTotal (scanner : Scanner σ) : Nat :=
  scanner.window.origin + scanner.consumed - scanner.pool.outstanding

end Scanner

/-- What an operation leads to. -/
structure Outcome (σ α : Type) where
  result : Except Fault α
  scanner : Scanner σ
  log : List Event

namespace Outcome
variable {α β : Type}

/-- Nothing happens. -/
def pure (a : α) (scanner : Scanner σ) : Outcome σ α := ⟨.ok a, scanner, []⟩

/-- The operation is stopped and nothing has changed. -/
def stop (fault : Fault) (scanner : Scanner σ) : Outcome σ α := ⟨.error fault, scanner, []⟩

/-- The same with earlier events in front. -/
def after (outcome : Outcome σ α) (log : List Event) : Outcome σ α :=
  { outcome with log := log ++ outcome.log }

/-- Goes on from an outcome, unless it is a fault. -/
def bind (outcome : Outcome σ α) (next : α → Scanner σ → Outcome σ β) : Outcome σ β :=
  match outcome.result with
  | .ok a => (next a outcome.scanner).after outcome.log
  | .error fault => ⟨.error fault, outcome.scanner, outcome.log⟩

/-- The same with another form of the result. -/
def map (f : α → β) (outcome : Outcome σ α) : Outcome σ β :=
  { outcome with result := outcome.result.map f }

@[simp] theorem result_pure (a : α) (scanner : Scanner σ) : (pure a scanner).result = .ok a := rfl
@[simp] theorem scanner_pure (a : α) (scanner : Scanner σ) :
    (pure a scanner).scanner = scanner := rfl
@[simp] theorem log_pure (a : α) (scanner : Scanner σ) : (pure a scanner).log = [] := rfl

@[simp] theorem result_after (outcome : Outcome σ α) (log : List Event) :
    (outcome.after log).result = outcome.result := rfl
@[simp] theorem scanner_after (outcome : Outcome σ α) (log : List Event) :
    (outcome.after log).scanner = outcome.scanner := rfl
@[simp] theorem log_after (outcome : Outcome σ α) (log : List Event) :
    (outcome.after log).log = log ++ outcome.log := rfl
@[simp] theorem after_nil (outcome : Outcome σ α) : outcome.after [] = outcome := rfl

theorem bind_of_ok {outcome : Outcome σ α} {a : α} (h : outcome.result = .ok a)
    (next : α → Scanner σ → Outcome σ β) :
    outcome.bind next = (next a outcome.scanner).after outcome.log := by
  simp [bind, h]

theorem bind_of_error {outcome : Outcome σ α} {fault : Fault} (h : outcome.result = .error fault)
    (next : α → Scanner σ → Outcome σ β) :
    outcome.bind next = ⟨.error fault, outcome.scanner, outcome.log⟩ := by
  simp [bind, h]

@[simp] theorem pure_bind (a : α) (scanner : Scanner σ) (next : α → Scanner σ → Outcome σ β) :
    (pure a scanner).bind next = next a scanner := rfl

@[simp] theorem scanner_map (f : α → β) (outcome : Outcome σ α) :
    (outcome.map f).scanner = outcome.scanner := rfl
@[simp] theorem log_map (f : α → β) (outcome : Outcome σ α) :
    (outcome.map f).log = outcome.log := rfl

end Outcome
end Lookahead
