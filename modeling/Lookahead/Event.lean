import Lookahead.Source.Basic

/-!
# Events

Every operation reports what it did: which requests it made to the source, how
the window moved, and what the pool did. Requests are kept with the room that
was lent, so that the bytes delivered so far can be read off a log. All other
events are notices for people, with a level, a wording and a few details.

## Main definitions

* `Event`: what can happen, with `Event.call?` and `Event.delivered`.
* `Event.notice?`: the notice for an event that has one.
* `deliveredBytes`: all bytes delivered in the course of a log.
-/
namespace Lookahead

/-- What happens in the course of an operation. -/
inductive Event where
  /-- The source was asked for bytes. -/
  | read (call : Source.Call)
  /-- A read of `count` bytes left `buffered` bytes in the window. -/
  | refilled (count buffered : Nat)
  /-- The source ended at the given stream offset. -/
  | exhausted (offset allocations : Nat)
  /-- The source failed. -/
  | failed (error : ReadError)
  /-- A window of `requested` bytes was refused. -/
  | refused (requested limit : Nat)
  /-- The window moves on, carrying `residual` bytes into one of `size` bytes. -/
  | relocating (residual capacity size parked : Nat)
  /-- A drained block of the pool is used again. -/
  | reusing (index capacity : Nat)
  /-- A buffer is allocated, beside the given number of blocks. -/
  | allocating (size blocks : Nat)
  /-- All bytes of a block are freed. -/
  | drained (index length : Nat)

/-- How much a notice matters. -/
inductive Event.Level where
  | debug
  | trace
deriving DecidableEq

/-- The name of a level. -/
def Event.Level.name : Event.Level → String
  | debug => "DEBUG"
  | trace => "TRACE"

/-- A detail of a notice. -/
inductive Event.Detail where
  | number (n : Nat)
  | text (s : String)

/-- An event in words. -/
structure Event.Notice where
  level : Event.Level
  message : String
  details : List (String × Event.Detail)

namespace Event

/-- The request behind an event, if it is one. -/
def call? : Event → Option Source.Call
  | read call => some call
  | _ => none

/-- The bytes that an event brought in. -/
def delivered (event : Event) : List UInt8 := event.call?.elim [] Source.Call.delivered

/-- The notice for an event. Requests have none. -/
def notice? : Event → Option Notice
  | read _ => none
  | refilled count buffered =>
    some ⟨.trace, "refill", [("read", .number count), ("buffered", .number buffered)]⟩
  | exhausted offset allocations =>
    some ⟨.debug, "source exhausted",
      [("offset", .number offset), ("allocations", .number allocations)]⟩
  | failed error => some ⟨.debug, "source failed", [("error", .text error.text)]⟩
  | refused requested limit =>
    some ⟨.debug, "token exceeds buffer limit",
      [("requested", .number requested), ("limit", .number limit)]⟩
  | relocating residual capacity size parked =>
    some ⟨.trace, "relocating window",
      [("residual", .number residual), ("capacity", .number capacity),
        ("size", .number size), ("parked", .number parked)]⟩
  | reusing index capacity =>
    some ⟨.trace, "reusing pooled block",
      [("index", .number index), ("capacity", .number capacity)]⟩
  | allocating size blocks =>
    some ⟨.debug, "allocating backing buffer",
      [("size", .number size), ("blocks", .number blocks)]⟩
  | drained index length =>
    some ⟨.trace, "block drained", [("index", .number index), ("len", .number length)]⟩

end Event

/-- The bytes delivered in the course of a log, in order. -/
def deliveredBytes (log : List Event) : List UInt8 := log.flatMap Event.delivered

@[simp] theorem deliveredBytes_nil : deliveredBytes [] = [] := rfl

@[simp] theorem deliveredBytes_append (first last : List Event) :
    deliveredBytes (first ++ last) = deliveredBytes first ++ deliveredBytes last := by
  simp [deliveredBytes]

end Lookahead
