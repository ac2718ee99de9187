import Lookahead.Word

/-!
# Broken contracts

A caller can break the contract of an operation: free more than was shifted, or
move the frontier before the token. What happens then depends on the mode. A
*checked* scanner stops the operation with a fault that names the cause. An
*unchecked* scanner tests nothing and goes on with the nearest sensible state,
and a sum that does not fit a word wraps around.

A buffer that is used outside of what it holds stops the operation in both modes.

## Main definitions

* `Fault`: the causes, and `Fault.message`, their wording.
* `Mode`: checked or unchecked, and `Mode.Rejects`, the test of a contract.
* `Mode.add`: the sum of two words.
-/
namespace Lookahead

/-- What is taken of a buffer. -/
inductive Access where
  /-- The byte at an index. -/
  | byte (index : Nat)
  /-- All bytes from an index on. -/
  | onward (start : Nat)
  /-- Bytes up to an index. -/
  | upTo (stop : Nat)
deriving DecidableEq

/-- The ways in which an operation is stopped in the middle. -/
inductive Fault where
  /-- The frontier was to move before the token start. -/
  | beforeToken
  /-- More bytes were freed than shifted; `excess` is by how many. -/
  | pastShifted (excess : Nat)
  /-- A sum is not a word. -/
  | sumOverflow
  /-- The bytes to park are not a range of the buffer handed over. -/
  | misplacedRetention
  /-- Bytes of the buffer handed over are freed while older ones are parked. -/
  | freedBeforeDrained
  /-- A buffer was asked to hold more than any buffer can. -/
  | capacityOverflow
  /-- A buffer of the given length was used outside of it. -/
  | outside (access : Access) (length : Nat)
deriving DecidableEq

/-- The wording of a fault. -/
def Fault.message : Fault → String
  | .beforeToken => "frontier moved before token start"
  | .pastShifted excess => s!"freed {excess} bytes past the shifted boundary"
  | .sumOverflow => "attempt to add with overflow"
  | .misplacedRetention => "assertion failed: freed <= retain && retain <= old.len()"
  | .freedBeforeDrained => "live bytes freed before the chain drained"
  | .capacityOverflow => "capacity overflow"
  | .outside (.byte index) length =>
    s!"index out of bounds: the len is {length} but the index is {index}"
  | .outside (.onward start) length =>
    s!"range start index {start} out of range for slice of length {length}"
  | .outside (.upTo stop) length =>
    s!"range end index {stop} out of range for slice of length {length}"

/-- Whether broken contracts are noticed. -/
inductive Mode where
  /-- Contracts are tested, and a sum that is not a word is a fault. -/
  | checked
  /-- Nothing is tested, and sums wrap around. -/
  | unchecked
deriving DecidableEq

namespace Mode

/-- A checked run rejects what does not hold; an unchecked one rejects nothing. -/
def Rejects (mode : Mode) (contract : Prop) : Prop := mode = .checked ∧ ¬contract

instance (mode : Mode) (contract : Prop) [Decidable contract] :
    Decidable (mode.Rejects contract) :=
  inferInstanceAs (Decidable (mode = .checked ∧ ¬contract))

theorem not_rejects {mode : Mode} {contract : Prop} (h : contract) :
    ¬mode.Rejects contract := fun hr => hr.2 h

@[simp] theorem not_unchecked_rejects (contract : Prop) :
    ¬unchecked.Rejects contract := fun hr => nomatch hr.1

@[simp] theorem checked_rejects_iff {contract : Prop} :
    checked.Rejects contract ↔ ¬contract := by simp [Rejects]

/-- The sum of two words. If it is not a word, a checked run stops and an
unchecked one keeps the remainder. -/
def add (mode : Mode) (a b : Nat) : Except Fault Nat :=
  if mode.Rejects (a + b < Word.bound) then .error .sumOverflow
  else .ok (Word.wrap (a + b))

theorem add_of_lt (mode : Mode) {a b : Nat} (h : a + b < Word.bound) :
    mode.add a b = .ok (a + b) := by
  simp [add, not_rejects h, Word.wrap_of_lt h]

/-- A sum is stopped only in a checked run, and only if it is no word. -/
theorem add_eq_error {mode : Mode} {a b : Nat} {fault : Fault} (h : mode.add a b = .error fault) :
    mode = .checked ∧ fault = .sumOverflow ∧ Word.bound ≤ a + b := by
  rw [add] at h
  split at h
  · rename_i hr
    exact ⟨hr.1, (Except.error.inj h).symm, Nat.le_of_not_lt hr.2⟩
  · exact nomatch h

/-- A sum of two words that is no word is one only once a whole range of words is
taken off it. -/
theorem unchecked_add_of_le {a b : Nat} (ha : a < Word.bound) (hb : b < Word.bound)
    (h : Word.bound ≤ a + b) : unchecked.add a b = .ok (a + b - Word.bound) := by
  have hlt : a + b - Word.bound < Word.bound := by omega
  simp [add, Word.wrap, Nat.mod_eq_sub_mod h, Nat.mod_eq_of_lt hlt]

end Mode
end Lookahead
