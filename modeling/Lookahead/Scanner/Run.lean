import Lookahead.Scanner.Free
import Lookahead.Scanner.Move
import Lookahead.Scanner.Peek

/-!
# Runs

A run applies one operation after the other, each to the scanner that the one
before left behind, also when that was stopped by a fault.

## Main definitions

* `Op` and `Answer`: the operations and their results.
* `Scanner.apply`: one operation.
* `Scanner.run`: a list of them.
* `Scanner.after`: the scanner and the log at the end of a run.
-/
namespace Lookahead

/-- The operations of a scanner. -/
inductive Op where
  | peek (distance : Nat)
  | peekRune (distance : Nat)
  | moveBy (delta : Int)
  | moveTo (n : Nat)
  | bytes
  | shift
  | shiftToken
  | skip
  | free (n : Nat)
  | lentBytes
  | shiftLent
deriving DecidableEq

/-- The results of the operations. -/
inductive Answer where
  | byte (byte : UInt8)
  | rune (rune : Char) (width : Nat)
  | done
  | bytes (bytes : List UInt8)
  | token (token : Token)
  | lent (bytes? : Option (List UInt8))
deriving DecidableEq

namespace Scanner
variable {σ : Type} [Source σ]

/-- Applies one operation. -/
def apply (mode : Mode) (scanner : Scanner σ) : Op → Outcome σ Answer
  | .peek distance => (scanner.peek mode distance).map .byte
  | .peekRune distance =>
    (scanner.peekRune mode distance).map fun found => .rune found.1 found.2
  | .moveBy delta => (scanner.moveBy mode delta).map fun _ => .done
  | .moveTo n => .pure .done (scanner.moveTo n)
  | .bytes => ⟨scanner.view.map .bytes, scanner, []⟩
  | .shift => scanner.shift.map .bytes
  | .shiftToken => (scanner.shiftToken mode).map .token
  | .skip => .pure .done scanner.skip
  | .free n => (scanner.free mode n).map fun _ => .done
  | .lentBytes => .pure (.lent scanner.lentBytes?) scanner
  | .shiftLent => scanner.shiftLent?.map .lent

/-- The outcomes of a list of operations, in order. -/
def run (mode : Mode) (scanner : Scanner σ) : List Op → List (Outcome σ Answer)
  | [] => []
  | op :: ops =>
    let outcome := scanner.apply mode op
    outcome :: outcome.scanner.run mode ops

/-- The scanner and the log at the end of a list of operations. -/
def after (mode : Mode) (scanner : Scanner σ) : List Op → Scanner σ × List Event
  | [] => (scanner, [])
  | op :: ops =>
    let outcome := scanner.apply mode op
    let rest := outcome.scanner.after mode ops
    (rest.1, outcome.log ++ rest.2)

@[simp] theorem length_run (mode : Mode) (scanner : Scanner σ) (ops : List Op) :
    (scanner.run mode ops).length = ops.length := by
  induction ops generalizing scanner with
  | nil => rfl
  | cons op ops ih => simp [run, ih]

/-- Running one list after another is running both in a row. -/
theorem run_append (mode : Mode) (scanner : Scanner σ) (first last : List Op) :
    scanner.run mode (first ++ last) =
      scanner.run mode first ++ (scanner.after mode first).1.run mode last := by
  induction first generalizing scanner with
  | nil => rfl
  | cons op ops ih => simp [run, after, ih]

theorem after_append (mode : Mode) (scanner : Scanner σ) (first last : List Op) :
    scanner.after mode (first ++ last) =
      let early := scanner.after mode first
      let late := early.1.after mode last
      (late.1, early.2 ++ late.2) := by
  induction first generalizing scanner with
  | nil => rfl
  | cons op ops ih => simp [after, ih]

/-- The log of a run is made of the logs of its operations. -/
theorem log_after (mode : Mode) (scanner : Scanner σ) (ops : List Op) :
    (scanner.after mode ops).2 = (scanner.run mode ops).flatMap Outcome.log := by
  induction ops generalizing scanner with
  | nil => rfl
  | cons op ops ih => simp [after, run, ih]

end Scanner
end Lookahead
