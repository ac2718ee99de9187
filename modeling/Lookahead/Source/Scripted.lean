import Lookahead.Source.Basic

/-!
# Scripted sources

A scripted source holds its bytes in memory and is told beforehand how to answer
each request: with an error, or with at most a given number of bytes. When the
script is over it answers at its own pace. It may also scribble over the part of
the room that it does not use.

## Main definitions

* `Source.Turn`: how to answer one request.
* `Source.Scripted`, with `Source.Scripted.read`.
-/
namespace Lookahead.Source

/-- How to answer one request. -/
inductive Turn where
  /-- Deliver at most so many bytes. -/
  | deliver (most : Nat)
  /-- Fail. -/
  | fail (error : ReadError)

/-- A source whose answers are laid down beforehand. -/
structure Scripted where
  /-- The bytes still to be delivered. -/
  data : List UInt8
  /-- The answers to the next requests. -/
  script : List Turn := []
  /-- The most bytes for one request when the script is over, if bounded. -/
  pace? : Option Nat := none
  /-- The byte written over the unused part of a room, if any. -/
  mark? : Option UInt8 := none

namespace Scripted

/-- The number of bytes delivered when at most `most?` may be. -/
def portion (source : Scripted) (most? : Option Nat) (room : List UInt8) : Nat :=
  let available := min room.length source.data.length
  most?.elim available (min available)

/-- Delivers a portion and leaves the rest of the room as it is or marked. -/
def deliver (source : Scripted) (most? : Option Nat) (room : List UInt8) : Reply × Scripted :=
  let n := source.portion most? room
  let unused := room.drop n
  let marked := source.mark?.elim unused fun mark => unused.map fun _ => mark
  ({ room := source.data.take n ++ marked, count := .ok n },
    { source with data := source.data.drop n })

/-- Answers one request as the script says, or at the source's own pace. -/
def read (source : Scripted) (room : List UInt8) : Reply × Scripted :=
  match source.script with
  | [] => source.deliver source.pace? room
  | .deliver most :: script => { source with script }.deliver (some most) room
  | .fail error :: script => ({ room, count := .error error }, { source with script })

theorem portion_le_room (source : Scripted) (most? : Option Nat) (room : List UInt8) :
    source.portion most? room ≤ room.length := by
  cases most? <;> simp only [portion, Option.elim] <;> omega

theorem portion_le_data (source : Scripted) (most? : Option Nat) (room : List UInt8) :
    source.portion most? room ≤ source.data.length := by
  cases most? <;> simp only [portion, Option.elim] <;> omega

theorem length_room_deliver (source : Scripted) (most? : Option Nat) (room : List UInt8) :
    (source.deliver most? room).1.room.length = room.length := by
  have hr := source.portion_le_room most? room
  have hd := source.portion_le_data most? room
  cases hm : source.mark? <;> simp [deliver, hm] <;> omega

@[simp] theorem count_deliver (source : Scripted) (most? : Option Nat) (room : List UInt8) :
    (source.deliver most? room).1.count = .ok (source.portion most? room) := rfl

@[simp] theorem delivered_deliver (source : Scripted) (most? : Option Nat) (room : List UInt8) :
    (source.deliver most? room).1.delivered = source.data.take (source.portion most? room) := by
  have hd := source.portion_le_data most? room
  simp [deliver, Reply.delivered, Nat.min_eq_left hd]

end Scripted

instance : Source Scripted where
  read := Scripted.read
  patience source _ := source.script.length
  length_room source room := by
    unfold Scripted.read
    split
    · exact Scripted.length_room_deliver ..
    · exact Scripted.length_room_deliver ..
    · rfl
  count_le source room n h := by
    unfold Scripted.read at h
    split at h
    · exact Except.ok.inj h ▸ Scripted.portion_le_room ..
    · exact Except.ok.inj h ▸ Scripted.portion_le_room ..
    · exact nomatch h
  patience_lt source room h := by
    unfold Scripted.read at h ⊢
    split at h
    · exact nomatch h
    · exact nomatch h
    · simp [*]

end Lookahead.Source
