import Lookahead.Buffer
import Lookahead.Fault

/-!
# The window

The window is the part of the stream that is in memory: the bytes buffered so
far, and behind them spare room for the next read. The spare room has contents
too, because a source sees the room that it is lent: it is zero when a window is
made and is not cleared between reads.

A window may also be lent by a caller who has the whole input in memory. Such a
window has no spare room and never moves.

Where the window is in the stream is kept as a word. A window carries the exact
count beside it (`Window.origin`), and `Window.base` is the word that is left of
it: the same number up to `Word.bound` bytes, and one that has wrapped around
after that.

## Main definitions

* `Window`, with `Window.ofBytes`, `Window.vacant` and `Window.base`.
* `Window.accept` and `Window.overwrite`: the two outcomes of a read.
* `Window.growth`: the size of the window that follows.
* `Window.advance`: the window that follows.
* `Window.lose`: what is left of a window that was stopped on the way there, with
  `Window.Kept` and `Window.Placed` for those that were not.
-/
namespace Lookahead

/-- The part of the stream that is in memory. -/
structure Window where
  /-- How many bytes of the stream came before. -/
  origin : Nat
  /-- The bytes of the stream from there on. -/
  buffer : Buffer
  /-- The room behind them, with its contents. -/
  spare : List UInt8
  /-- Whether the window is the whole input, lent by the caller. -/
  lent : Bool
  /-- The first fault that stopped a move after the buffer had been given up, if one
  did. The bytes then still count as buffered, but they cannot be reached. -/
  fault? : Option Fault := none
deriving DecidableEq

namespace Window

/-- The window over an input that is in memory. -/
def ofBytes (bytes : List UInt8) : Window :=
  { origin := 0, buffer := .ofBytes bytes, spare := [], lent := true }

/-- A window of the given size at the start of a stream. -/
def vacant (size : Nat) : Window :=
  { origin := 0, buffer := .empty size, spare := List.replicate size 0, lent := false }

/-- The stream offset of the first byte, as the word that is kept of it. -/
def base (window : Window) : Nat := Word.wrap window.origin

/-- The bytes of the stream in the window. -/
def bytes (window : Window) : List UInt8 := window.buffer.bytes

/-- The number of bytes of the stream that count as buffered. -/
def filled (window : Window) : Nat := window.buffer.length

/-- The window has its buffer: no move of it was stopped. -/
def Kept (window : Window) : Prop := window.fault? = none

/-- The bytes that count as buffered are those that the positions of a scanner refer
to: no move was stopped between the two. -/
def Placed (window : Window) : Prop := window.fault? ≠ some .sumOverflow

instance (window : Window) : Decidable window.Kept := inferInstanceAs (Decidable (_ = _))

instance (window : Window) : Decidable window.Placed := inferInstanceAs (Decidable (_ ≠ _))

/-- The number of bytes that the window has room for: none without a buffer. -/
def size (window : Window) : Nat :=
  if window.Kept then window.filled + window.spare.length else 0

/-- How many bytes of the stream came up to the last one in the window. -/
def stop (window : Window) : Nat := window.origin + window.filled

/-- The byte at an index, zero if it is not in the window. -/
def byteAt (window : Window) (index : Nat) : UInt8 := window.bytes.getD index 0

/-- The bytes from one index up to another, as far as they are in the window. -/
def segment (window : Window) (start stop : Nat) : List UInt8 :=
  (window.bytes.take stop).drop start

/-- The window after a read that left the spare room as given and delivered `n`
bytes at its front. -/
def accept (window : Window) (room : List UInt8) (n : Nat) : Window :=
  { window with buffer := window.buffer.append (room.take n), spare := room.drop n }

/-- The window after a failed read that left the spare room as given. -/
def overwrite (window : Window) (room : List UInt8) : Window := { window with spare := room }

/-- The size of the window that follows one of the given size, if `residual`
bytes are carried over. It stays the same while at least half of it becomes room,
and more than doubles otherwise. -/
def growth (size residual : Nat) : Nat :=
  if 2 * residual > size then 2 * size + residual else size

/-- The window that follows: `retain` bytes further on in the stream, with the
bytes carried over at its front and zeros behind them. -/
def advance (window : Window) (retain : Nat) (carried : Buffer) (size : Nat) : Window :=
  { window with
    origin := window.origin + retain
    buffer := carried
    spare := List.replicate (size - carried.length) 0 }

/-- What is left of a window if a move is stopped by a fault after its buffer has
been given up. The bytes of the given buffer still count as buffered. -/
def lose (window : Window) (left : Buffer) (fault : Fault) : Window :=
  { window with buffer := left, spare := [], fault? := window.fault?.or (some fault) }

theorem base_of_lt {window : Window} (h : window.origin < Word.bound) :
    window.base = window.origin := Word.wrap_of_lt h

theorem base_lt (window : Window) : window.base < Word.bound := Word.wrap_lt _

theorem Kept.placed {window : Window} (h : window.Kept) : window.Placed := by
  rw [Placed, show window.fault? = none from h]
  exact nofun

theorem not_kept_lose {window : Window} {left : Buffer} {fault : Fault} :
    ¬(window.lose left fault).Kept := by
  simp [Kept, lose]

/-- A window with its buffer has room for its bytes and its spare room. -/
theorem Kept.size_eq {window : Window} (h : window.Kept) :
    window.size = window.filled + window.spare.length := if_pos h

theorem Kept.filled_le {window : Window} (h : window.Kept) : window.filled ≤ window.size := by
  rw [h.size_eq]
  exact Nat.le_add_right ..

theorem size_of_not_kept {window : Window} (h : ¬window.Kept) : window.size = 0 := if_neg h

/-- Windows with as many bytes and as much spare room together are of the same size. -/
theorem size_congr {window other : Window} (hf : window.fault? = other.fault?)
    (hroom : window.filled + window.spare.length = other.filled + other.spare.length) :
    window.size = other.size := by
  have hkept : window.Kept ↔ other.Kept := by rw [Kept, Kept, hf]
  simp only [size, hkept, hroom]

@[simp] theorem size_lose (window : Window) (left : Buffer) (fault : Fault) :
    (window.lose left fault).size = 0 := size_of_not_kept not_kept_lose

/-! ## Faults are kept -/

/-- The later window has the fault of the earlier one, if there was one. -/
def Inherits (later earlier : Window) : Prop :=
  ∀ fault ∈ earlier.fault?, later.fault? = some fault

theorem Inherits.refl (window : Window) : window.Inherits window := fun _ h => h

theorem Inherits.trans {last later earlier : Window} (h : last.Inherits later)
    (h' : later.Inherits earlier) : last.Inherits earlier :=
  fun fault hf => h fault (h' fault hf)

/-- A window that has its buffer has had it all the time. -/
theorem Inherits.kept {later earlier : Window} (h : later.Inherits earlier) (hk : later.Kept) :
    earlier.Kept := by
  cases hf : earlier.fault? with
  | none => exact hf
  | some fault => exact absurd (hk.symm.trans (h fault hf)) nofun

theorem Inherits.placed {later earlier : Window} (h : later.Inherits earlier)
    (hp : later.Placed) : earlier.Placed := fun hf => hp (h _ hf)

theorem inherits_lose (window : Window) (left : Buffer) (fault : Fault) :
    (window.lose left fault).Inherits window := by
  intro first hfirst
  simp only [lose, show window.fault? = some first from hfirst, Option.some_or]

/-- Only a fault behind the swap leaves the bytes that count as buffered out of place. -/
theorem Placed.lose {window : Window} (hp : window.Placed) (left : Buffer) {fault : Fault}
    (hf : fault ≠ .sumOverflow) : (window.lose left fault).Placed := by
  rw [Placed] at hp ⊢
  cases h : window.fault? with
  | none => simpa [Window.lose, h] using hf
  | some first => simpa [Window.lose, h] using hp

/-! ## Sizes -/

@[simp] theorem filled_vacant (size : Nat) : (vacant size).filled = 0 := rfl

theorem kept_vacant (size : Nat) : (vacant size).Kept := rfl

theorem kept_ofBytes (bytes : List UInt8) : (ofBytes bytes).Kept := rfl

@[simp] theorem size_vacant (size : Nat) : (vacant size).size = size := by
  rw [(kept_vacant size).size_eq, filled_vacant, Nat.zero_add]
  exact List.length_replicate

@[simp] theorem stop_overwrite (window : Window) (room : List UInt8) :
    (window.overwrite room).stop = window.stop := rfl

theorem stop_accept (window : Window) {room : List UInt8} {n : Nat} (h : n ≤ room.length) :
    (window.accept room n).stop = window.stop + n := by
  simp [stop, accept, filled, Nat.min_eq_left h, Nat.add_assoc]

theorem size_accept (window : Window) {room : List UInt8} {n : Nat} (hn : n ≤ room.length)
    (hr : room.length = window.spare.length) : (window.accept room n).size = window.size := by
  refine size_congr rfl ?_
  simp only [accept, filled, Buffer.length_append, List.length_take, List.length_drop]
  omega

/-- Moving on keeps the end of the buffered bytes where it is in the stream. -/
theorem stop_advance (window : Window) {retain size : Nat} {carried : Buffer}
    (hr : retain ≤ window.filled) (hc : carried.bytes = window.bytes.drop retain) :
    (window.advance retain carried size).stop = window.stop := by
  simp only [stop, advance, filled, Buffer.length, bytes] at *
  simp only [hc, List.length_drop]
  omega

end Window
end Lookahead
