import Lookahead.Scanner.Basic
import Lookahead.Token

/-!
# Moving and shifting

The frontier moves freely behind the token start and may pass the end of the
input. Shifting takes the selection out and starts the next token at the
frontier. None of this asks the source for anything, and views of the selection
and copies of it are the same list of bytes.

## Main definitions

* `Scanner.moveBy`, `Scanner.moveTo`: move the frontier.
* `Scanner.skip`, `Scanner.shift`, `Scanner.shiftLent?`, `Scanner.shiftToken`:
  start the next token.
-/
namespace Lookahead.Scanner
variable {σ : Type}

/-- Moves the frontier by `delta` bytes, backwards if negative, but never before
the token start, where it stops unless the mode rejects the move. -/
def moveBy (mode : Mode) (scanner : Scanner σ) (delta : Int) : Outcome σ Unit :=
  let frontier := Word.saturate (scanner.frontier + delta).toNat
  if mode.Rejects (scanner.start ≤ frontier) then .stop .beforeToken scanner
  else .pure () { scanner with frontier := max frontier scanner.start }

/-- Moves the frontier to `n` bytes past the token start. -/
def moveTo (scanner : Scanner σ) (n : Nat) : Scanner σ :=
  { scanner with frontier := Word.saturate (scanner.start + n) }

/-- Starts the next token at the frontier. -/
def skip (scanner : Scanner σ) : Scanner σ := { scanner with start := scanner.frontier }

/-- Takes the selection out and starts the next token, even if the selection cannot
be read. -/
def shift (scanner : Scanner σ) : Outcome σ (List UInt8) := ⟨scanner.view, scanner.skip, []⟩

/-- Takes the selection out if the input is in memory; else nothing happens. -/
def shiftLent? (scanner : Scanner σ) : Outcome σ (Option (List UInt8)) :=
  match scanner.lentBytes? with
  | some bytes => .pure (some bytes) scanner.skip
  | none => .pure none scanner

/-- Takes the selection out together with its stream offset. -/
def shiftToken (mode : Mode) (scanner : Scanner σ) : Outcome σ Token :=
  match scanner.offset mode with
  | .ok offset => scanner.shift.map fun bytes => ⟨bytes, offset⟩
  | .error fault => .stop fault scanner

end Lookahead.Scanner
