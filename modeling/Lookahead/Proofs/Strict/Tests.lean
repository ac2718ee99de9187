import Lookahead.Fault

/-!
# Tested computations

Some operations on machine words and buffers are not defined for all arguments: a
sum, a product or a difference may not be a word, an index or a range may lie
outside a buffer, and what an assertion says may not hold. A strict computation
tests every one of them before it goes on, and ends with a finding where a test
fails. What it computes with natural numbers is then what it would compute with
words.

## Main definitions

* `Strict.Finding`: what a test can find, and `Strict.Tested`, computations.
* `Strict.Clear`: a computation that finds nothing.
* `Strict.require`, `Strict.sum`, `Strict.difference`, `Strict.product`,
  `Strict.inBounds` and `Strict.range`: the tests.

## Main statements

* `Strict.bind_eq_ok` and `Strict.Clear.bind`: a computation finds nothing if its
  parts do not.
-/
namespace Lookahead.Strict

/-- What a test can find. -/
inductive Finding where
  /-- A contract that a checked run tests as well is broken. -/
  | fault (fault : Fault)
  /-- A difference is below zero. -/
  | differenceUnderflow
  /-- A product is not a word. -/
  | productOverflow
  /-- An index lies outside a buffer of the given length. -/
  | outOfBounds (index length : Nat)
  /-- A range is reversed or exceeds a buffer of the given length. -/
  | outOfRange (start stop length : Nat)
  /-- Bytes of the window are freed before all parked ones are. -/
  | spillBeforeDrained
deriving DecidableEq

/-- A computation in which everything is tested. -/
abbrev Tested (α : Type) : Type := Except Finding α

/-- Goes on if the contract holds. -/
def require (contract : Prop) [Decidable contract] (finding : Finding) : Tested Unit :=
  if contract then .ok () else .error finding

/-- The sum of two words, if it is a word. -/
def sum (a b : Nat) : Tested Nat :=
  if a + b < Word.bound then .ok (a + b) else .error (.fault .sumOverflow)

/-- The difference of two words, if it is not below zero. -/
def difference (a b : Nat) : Tested Nat :=
  if b ≤ a then .ok (a - b) else .error .differenceUnderflow

/-- The product of two words, if it is a word. -/
def product (a b : Nat) : Tested Nat :=
  if a * b < Word.bound then .ok (a * b) else .error .productOverflow

/-- Goes on if an index lies inside a buffer. -/
def inBounds (index length : Nat) : Tested Unit :=
  require (index < length) (.outOfBounds index length)

/-- Goes on if a range lies inside a buffer. -/
def range (start stop length : Nat) : Tested Unit :=
  require (start ≤ stop ∧ stop ≤ length) (.outOfRange start stop length)

section
variable {α β : Type}

theorem bind_eq_ok {x : Tested α} {f : α → Tested β} {b : β} :
    (x >>= f) = .ok b ↔ ∃ a, x = .ok a ∧ f a = .ok b := by
  cases x with
  | error finding => simp [bind, Except.bind]
  | ok a => simp [bind, Except.bind]

theorem pure_eq_ok {a b : α} : (pure a : Tested α) = .ok b ↔ a = b := by
  simp [pure, Except.pure]

theorem map_eq_ok {x : Tested α} {f : α → β} {b : β} :
    x.map f = .ok b ↔ ∃ a, x = .ok a ∧ f a = b := by
  cases x <;> simp [Except.map]

end

theorem require_eq_ok {contract : Prop} [Decidable contract] {finding : Finding} {u : Unit} :
    require contract finding = .ok u ↔ contract := by
  by_cases h : contract <;> simp [require, h]

theorem sum_eq_ok {a b c : Nat} : sum a b = .ok c ↔ a + b < Word.bound ∧ a + b = c := by
  by_cases h : a + b < Word.bound <;> simp [sum, h]

theorem difference_eq_ok {a b c : Nat} : difference a b = .ok c ↔ b ≤ a ∧ a - b = c := by
  by_cases h : b ≤ a <;> simp [difference, h]

theorem product_eq_ok {a b c : Nat} : product a b = .ok c ↔ a * b < Word.bound ∧ a * b = c := by
  by_cases h : a * b < Word.bound <;> simp [product, h]

theorem inBounds_eq_ok {index length : Nat} {u : Unit} :
    inBounds index length = .ok u ↔ index < length := require_eq_ok

/-! ## Finding nothing -/

section
variable {α β : Type}

/-- A computation that finds nothing. -/
def Clear (x : Tested α) : Prop := ∃ a, x = .ok a

theorem clear_pure (a : α) : Clear (pure a : Tested α) := ⟨a, rfl⟩

theorem Clear.bind {x : Tested α} {f : α → Tested β} (hx : Clear x)
    (hf : ∀ a, x = .ok a → Clear (f a)) : Clear (x >>= f) := by
  obtain ⟨a, ha⟩ := hx
  obtain ⟨b, hb⟩ := hf a ha
  exact ⟨b, bind_eq_ok.2 ⟨a, ha, hb⟩⟩

theorem Clear.map {x : Tested α} (hx : Clear x) (f : α → β) : Clear (x.map f) := by
  obtain ⟨a, ha⟩ := hx
  exact ⟨f a, map_eq_ok.2 ⟨a, ha, rfl⟩⟩

end

theorem clear_require {contract : Prop} [Decidable contract] {finding : Finding} (h : contract) :
    Clear (require contract finding) := ⟨(), require_eq_ok.2 h⟩

theorem clear_sum {a b : Nat} (h : a + b < Word.bound) : Clear (sum a b) :=
  ⟨a + b, sum_eq_ok.2 ⟨h, rfl⟩⟩

theorem clear_difference {a b : Nat} (h : b ≤ a) : Clear (difference a b) :=
  ⟨a - b, difference_eq_ok.2 ⟨h, rfl⟩⟩

theorem clear_product {a b : Nat} (h : a * b < Word.bound) : Clear (product a b) :=
  ⟨a * b, product_eq_ok.2 ⟨h, rfl⟩⟩

theorem clear_inBounds {index length : Nat} (h : index < length) : Clear (inBounds index length) :=
  clear_require h

theorem clear_range {start stop length : Nat} (h : start ≤ stop ∧ stop ≤ length) :
    Clear (range start stop length) := clear_require h

end Lookahead.Strict
