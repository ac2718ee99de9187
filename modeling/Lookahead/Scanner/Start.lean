import Lookahead.Config
import Lookahead.Scanner.Peek
import Lookahead.Source.Silent

/-!
# Making scanners

A scanner works on bytes that are in memory already, or it streams from a source
through a window of its own. In memory there is nothing to wait for: the end of
the input is known from the start, and the window is the input. A streaming
scanner looks at the first byte at once.

## Main definitions

* `Scanner.ofBytes`: scans bytes in memory.
* `Scanner.ofSource`: scans a source, with a configuration.
-/
namespace Lookahead.Scanner

/-- A scanner over bytes that are in memory. -/
def ofBytes (bytes : List UInt8) : Scanner Source.Silent :=
  { source := {}
    status := .exhausted
    pool := .empty
    limit? := none
    window := .ofBytes bytes
    consumed := 0
    start := 0
    frontier := 0 }

/-- Why a scanner was not made. -/
inductive Refusal where
  /-- The configuration has a flaw. -/
  | flawed (flaw : Config.Flaw)
  /-- The first window cannot be made. -/
  | fault (fault : Fault)

variable {σ : Type}

/-- A streaming scanner that has not read yet. -/
def unread (config : Config) (source : σ) : Scanner σ :=
  { source
    status := .active
    pool := .empty
    limit? := config.maxCapacity?
    window := .vacant config.initialCapacity
    consumed := 0
    start := 0
    frontier := 0 }

/-- A streaming scanner that has looked at the first byte, if the configuration
allows for one. -/
def ofSource [Source σ] (mode : Mode) (config : Config) (source : σ) :
    Except Refusal (Outcome σ UInt8) :=
  match config.flaw? with
  | some flaw => .error (.flawed flaw)
  | none =>
    if config.initialCapacity ≤ Word.maxAllocation then
      .ok ((unread config source).peek mode 0)
    else .error (.fault .capacityOverflow)

end Lookahead.Scanner
