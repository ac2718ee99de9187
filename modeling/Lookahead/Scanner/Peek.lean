import Lookahead.Rune
import Lookahead.Scanner.Refill

/-!
# Looking ahead

Looking at a byte beyond the frontier fills the window up to it. A byte that
does not exist, because the input ended or the source failed, reads as zero;
`Scanner.err` tells the two apart. A byte so far ahead that its index is no word
reads as zero without any attempt to reach it.

## Main definitions

* `Scanner.peek`: the byte a given distance past the frontier.
* `Scanner.peekRune`: the character that begins there, and its width.
-/
namespace Lookahead.Scanner
variable {σ : Type}

/-- The byte at an index of the window, or zero if none is buffered there. -/
def look (scanner : Scanner σ) (index : Nat) : Outcome σ UInt8 :=
  if scanner.window.size ≤ index ∧ index < scanner.window.filled then
    .stop (.outside (.byte index) scanner.window.size) scanner
  else
    .pure (scanner.window.byteAt index) scanner

variable [Source σ]

/-- The byte `distance` past the frontier, or zero. -/
def peek (mode : Mode) (scanner : Scanner σ) (distance : Nat) : Outcome σ UInt8 :=
  if scanner.frontier + distance < Word.bound then
    (scanner.fill mode (scanner.frontierOffset + distance)).bind fun _ scanner =>
      scanner.look (scanner.frontier + distance)
  else
    .pure 0 scanner

/-- The bytes at several distances, looked at in turn. -/
def peekEach (mode : Mode) (scanner : Scanner σ) : List Nat → Outcome σ (List UInt8)
  | [] => .pure [] scanner
  | distance :: distances =>
    (scanner.peek mode distance).bind fun byte scanner =>
      (scanner.peekEach mode distances).map (byte :: ·)

/-- The distances of the bytes that follow a lead byte. -/
def followers (lead : UInt8) (distance : Nat) : List Nat :=
  (List.range' 1 (Rune.width lead - 1)).map fun i => Word.saturate (distance + i)

/-- The character whose lead byte is `distance` past the frontier, and the number
of bytes it takes. -/
def peekRune (mode : Mode) (scanner : Scanner σ) (distance : Nat) : Outcome σ (Char × Nat) :=
  (scanner.peek mode distance).bind fun lead scanner =>
    (scanner.peekEach mode (followers lead distance)).map fun rest =>
      (Rune.decode lead rest, Rune.width lead)

/-- Nothing happens when the wanted byte is in the window. -/
theorem fill_of_lt_stop (mode : Mode) (scanner : Scanner σ) {target : Nat}
    (h : target < scanner.window.stop) : scanner.fill mode target = .pure () scanner := by
  unfold fill
  simp [Nat.not_le.2 h]

/-- Nothing happens when the source has ended. -/
theorem fill_of_not_active (mode : Mode) (scanner : Scanner σ) (target : Nat)
    (h : scanner.status.isActive = false) : scanner.fill mode target = .pure () scanner := by
  unfold fill
  simp [h]

theorem peek_of_bound_le (mode : Mode) (scanner : Scanner σ) {distance : Nat}
    (h : Word.bound ≤ scanner.frontier + distance) :
    scanner.peek mode distance = .pure 0 scanner := by
  simp [peek, Nat.not_lt.2 h]

end Lookahead.Scanner
