import Lookahead.Pool.Free
import Lookahead.Scanner.Basic

/-!
# Freeing shifted bytes

Shifted bytes stay in memory until the caller frees them, oldest first: those in
the pool before those in the window. No more may be freed than was shifted.

## Main definitions

* `Scanner.free`: frees bytes.
* `Scanner.consume`: the part that concerns the window.
-/
namespace Lookahead.Scanner
variable {σ : Type}

/-- Frees `n` bytes of the window. Going past the token start is a fault, or stops
there if the mode does not reject it. -/
def consume (mode : Mode) (scanner : Scanner σ) (n : Nat) : Outcome σ Unit :=
  match mode.add scanner.consumed n with
  | .error fault => .stop fault scanner
  | .ok consumed =>
    if mode.Rejects (consumed ≤ scanner.start) then
      .stop (.pastShifted (consumed - scanner.start)) scanner
    else
      .pure () { scanner with consumed := min consumed scanner.start }

/-- Frees `n` more shifted bytes. The pool is freed first and stays so if the
rest of the operation is a fault. -/
def free (mode : Mode) (scanner : Scanner σ) (n : Nat) : Outcome σ Unit :=
  let released := scanner.pool.free n
  ({ scanner with pool := released.pool }.consume mode released.spill).after released.log

end Lookahead.Scanner
