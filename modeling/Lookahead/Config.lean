/-!
# Configuration

The first window has the initial capacity, an estimate of the longest token and
the look-ahead behind it. The window grows when a token does not fit; the
maximum capacity, when given, bounds that growth.

## Main definitions

* `Config`: the two capacities, `Config.standard` and the setters.
* `Config.Flaw`: what can be wrong with them, and `Config.flaw?`, the check.
* `Config.ofCapacity?`: an initial capacity without a limit.
-/
namespace Lookahead

/-- The capacities of a window. -/
structure Config where
  /-- The size of the first window. -/
  initialCapacity : Nat := 4096
  /-- The size that no window exceeds, if there is one. -/
  maxCapacity? : Option Nat := none
deriving DecidableEq

namespace Config

/-- The configuration of a scanner that was given none. -/
def standard : Config := {}

/-- The configuration with another initial capacity, not checked. -/
def withInitialCapacity (config : Config) (capacity : Nat) : Config :=
  { config with initialCapacity := capacity }

/-- The configuration with another limit or without one, not checked. -/
def withMaxCapacity (config : Config) (capacity? : Option Nat) : Config :=
  { config with maxCapacity? := capacity? }

/-- What can be wrong with a configuration. -/
inductive Flaw where
  /-- The first window would hold no byte. -/
  | zeroInitial
  /-- The first window would exceed the limit. -/
  | limitBelowInitial
deriving DecidableEq

/-- The wording of a flaw. -/
def Flaw.reason : Flaw → String
  | zeroInitial => "initial capacity must be non-zero"
  | limitBelowInitial => "max capacity cannot be smaller than initial capacity"

/-- The first flaw of a configuration, if it has one. -/
def flaw? (config : Config) : Option Flaw :=
  if config.initialCapacity = 0 then some .zeroInitial
  else if config.maxCapacity?.any (· < config.initialCapacity) then some .limitBelowInitial
  else none

/-- The configuration with the given initial capacity and no limit. -/
def ofCapacity? (capacity : Nat) : Except Flaw Config :=
  let config : Config := { initialCapacity := capacity }
  match config.flaw? with
  | some flaw => .error flaw
  | none => .ok config

/-- A configuration is sound if its first window holds a byte and is within the
limit. -/
def Valid (config : Config) : Prop :=
  0 < config.initialCapacity ∧ ∀ limit ∈ config.maxCapacity?, config.initialCapacity ≤ limit

theorem flaw?_eq_none_iff {config : Config} : config.flaw? = none ↔ config.Valid := by
  obtain ⟨initial, limit?⟩ := config
  have hpos : 0 < initial ↔ initial ≠ 0 := Nat.pos_iff_ne_zero
  cases limit? with
  | none => by_cases h : initial = 0 <;> simp [flaw?, Valid, hpos, h]
  | some limit =>
    by_cases h : initial = 0
    · simp [flaw?, Valid, h]
    · by_cases hl : limit < initial
      · simp [flaw?, Valid, h, hl]
      · simp [flaw?, Valid, hpos, h, hl, Nat.le_of_not_lt hl]

theorem valid_standard : standard.Valid := by simp [Valid, standard]

end Config
end Lookahead
