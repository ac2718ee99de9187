/-!
# Buffers

A buffer holds bytes and was allocated for a fixed capacity. Taking bytes away
at either end keeps the capacity.

## Main definitions

* `Buffer`: the bytes and the capacity, with `Buffer.Fits`.
* `Buffer.ofBytes`, `Buffer.empty`, `Buffer.take`, `Buffer.drop` and
  `Buffer.append`.
-/
namespace Lookahead

/-- Bytes in storage of a fixed capacity. -/
@[ext] structure Buffer where
  bytes : List UInt8
  /-- The number of bytes that the storage was allocated for. -/
  capacity : Nat
deriving DecidableEq

namespace Buffer

/-- The number of bytes held. -/
def length (buffer : Buffer) : Nat := buffer.bytes.length

/-- The bytes are within the capacity. -/
def Fits (buffer : Buffer) : Prop := buffer.length ≤ buffer.capacity

instance (buffer : Buffer) : Decidable buffer.Fits :=
  inferInstanceAs (Decidable (_ ≤ _))

/-- A buffer just large enough for the bytes. -/
def ofBytes (bytes : List UInt8) : Buffer := ⟨bytes, bytes.length⟩

/-- A buffer that holds nothing yet. -/
def empty (capacity : Nat) : Buffer := ⟨[], capacity⟩

/-- Keeps the first `n` bytes, in the same storage. -/
def take (buffer : Buffer) (n : Nat) : Buffer := { buffer with bytes := buffer.bytes.take n }

/-- Drops the first `n` bytes and moves the others down, in the same storage. -/
def drop (buffer : Buffer) (n : Nat) : Buffer := { buffer with bytes := buffer.bytes.drop n }

/-- Adds bytes at the end, in the same storage. -/
def append (buffer : Buffer) (bytes : List UInt8) : Buffer :=
  { buffer with bytes := buffer.bytes ++ bytes }

@[simp] theorem length_take (buffer : Buffer) (n : Nat) :
    (buffer.take n).length = min n buffer.length := by simp [length, take]

@[simp] theorem length_drop (buffer : Buffer) (n : Nat) :
    (buffer.drop n).length = buffer.length - n := by simp [length, drop]

@[simp] theorem length_append (buffer : Buffer) (bytes : List UInt8) :
    (buffer.append bytes).length = buffer.length + bytes.length := by simp [length, append]

theorem fits_ofBytes (bytes : List UInt8) : (ofBytes bytes).Fits := Nat.le_refl _

theorem Fits.take {buffer : Buffer} (h : buffer.Fits) (n : Nat) : (buffer.take n).Fits :=
  Nat.le_trans (length_take buffer n ▸ Nat.min_le_right ..) h

theorem Fits.drop {buffer : Buffer} (h : buffer.Fits) (n : Nat) : (buffer.drop n).Fits :=
  Nat.le_trans (length_drop buffer n ▸ Nat.sub_le ..) h

end Buffer
end Lookahead
