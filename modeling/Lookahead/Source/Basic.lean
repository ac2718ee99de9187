import Lookahead.ReadError

/-!
# Sources

A source is asked for bytes again and again. Each time it is lent a room of
bytes, may write anywhere in it, and answers with the number of bytes that it
delivered at the front or with an error. What it answers may depend on its own
state and on the length and the contents of the room.

Two things are asked of a source: it neither resizes the room nor claims more
bytes than fit, and it is interrupted only finitely often in a row. The second
makes `Source.pull` a total function: it asks again after every interruption.

## Main definitions

* `Reply`: what a source does with one room, with `Reply.delivered`.
* `Source`: the class of sources.
* `Source.pull`: asks until the answer is no interruption.
-/
namespace Lookahead

/-- What a source does with the room it is lent. -/
structure Reply where
  /-- The room as the source leaves it. -/
  room : List UInt8
  /-- The number of bytes delivered at the front of the room. -/
  count : Except ReadError Nat

namespace Reply

/-- The bytes delivered: none if the read failed. -/
def delivered (reply : Reply) : List UInt8 :=
  match reply.count with
  | .ok n => reply.room.take n
  | .error _ => []

/-- Whether the source was interrupted and is to be asked again. -/
def isInterruption (reply : Reply) : Bool :=
  match reply.count with
  | .ok _ => false
  | .error error => error.isInterruption

end Reply

/-- A source of bytes. -/
class Source (σ : Type) where
  /-- Answers one request, given the room to write to. -/
  read : σ → List UInt8 → Reply × σ
  /-- How many more interruptions in a row are possible at most. -/
  patience : σ → List UInt8 → Nat
  /-- The room keeps its length. -/
  length_room : ∀ source room, (read source room).1.room.length = room.length
  /-- No more bytes are delivered than fit. -/
  count_le : ∀ source room n, (read source room).1.count = .ok n → n ≤ room.length
  /-- Each interruption uses up patience. -/
  patience_lt : ∀ source room, (read source room).1.isInterruption = true →
    patience (read source room).2 (read source room).1.room < patience source room

namespace Source

/-- One request: the room on entry and the answer. -/
structure Call where
  room : List UInt8
  reply : Reply

/-- The bytes that a request delivered. -/
def Call.delivered (call : Call) : List UInt8 := call.reply.delivered

/-- What asking a source until it is not interrupted leads to. -/
structure Pulled (σ : Type) where
  /-- The last answer. -/
  reply : Reply
  /-- The source afterwards. -/
  source : σ
  /-- All requests, in order. -/
  calls : List Call

variable {σ : Type} [Source σ]

/-- Asks a source for bytes, and again after each interruption. -/
def pull (source : σ) (room : List UInt8) : Pulled σ :=
  let answer := read source room
  if answer.1.isInterruption = true then
    let later := pull answer.2 answer.1.room
    { later with calls := ⟨room, answer.1⟩ :: later.calls }
  else
    { reply := answer.1, source := answer.2, calls := [⟨room, answer.1⟩] }
termination_by patience source room
decreasing_by exact patience_lt source room ‹_›

theorem pull_length_room (source : σ) (room : List UInt8) :
    (pull source room).reply.room.length = room.length := by
  fun_induction pull source room with
  | case1 source room answer _ later ih => rw [ih, length_room]
  | case2 source room => exact length_room source room

theorem pull_count_le {source : σ} {room : List UInt8} {n : Nat}
    (h : (pull source room).reply.count = .ok n) : n ≤ room.length := by
  fun_induction pull source room with
  | case1 source room answer _ later ih => exact length_room source room ▸ ih h
  | case2 source room => exact count_le source room n h

/-- The last answer is never an interruption. -/
theorem pull_not_isInterruption (source : σ) (room : List UInt8) :
    (pull source room).reply.isInterruption = false := by
  fun_induction pull source room with
  | case1 source room answer _ later ih => exact ih
  | case2 source room answer h => simpa using h

end Source
end Lookahead
