/-!
# Machine words

Positions, lengths and counts are natural numbers that a caller hands over as
64-bit words. The library computes with natural numbers and names the places
where the width of a word shows:

* sums that stop at the largest word (`Word.saturate`);
* sums that wrap around or are stopped (`Word.wrap`, and `Mode.add` over it);
* the stream offset of a window, which is kept as a word (`Window.base`);
* the largest buffer that can be asked for (`Word.maxAllocation`).

## Main definitions

* `Word.bound`: every word is below it.
* `Word.saturate`: the nearest word to a natural number.
* `Word.wrap`: the word that is left of a natural number when it wraps around.
* `Word.maxAllocation`: the largest number of bytes one buffer may hold.
-/
namespace Lookahead.Word

/-- Every word is below this number. -/
def bound : Nat := UInt64.size

/-- The word nearest to `n`: `n` itself if it is a word, else the largest word. -/
def saturate (n : Nat) : Nat := min n (bound - 1)

/-- The word that is left of `n` when it wraps around. -/
def wrap (n : Nat) : Nat := n % bound

/-- The largest number of bytes one buffer may be asked to hold: lengths are
within half the range of words. -/
def maxAllocation : Nat := bound / 2 - 1

theorem saturate_lt (n : Nat) : saturate n < bound := by
  simp only [saturate, bound, UInt64.size]
  omega

theorem saturate_of_lt {n : Nat} (h : n < bound) : saturate n = n := by
  simp only [saturate, bound, UInt64.size] at *
  omega

theorem saturate_mono {m n : Nat} (h : m ≤ n) : saturate m ≤ saturate n := by
  simp only [saturate, bound, UInt64.size]
  omega

theorem wrap_lt (n : Nat) : wrap n < bound := Nat.mod_lt n (by decide)

theorem wrap_of_lt {n : Nat} (h : n < bound) : wrap n = n := Nat.mod_eq_of_lt h

theorem wrap_le (n : Nat) : wrap n ≤ n := Nat.mod_le n bound

/-- Wrapping a summand first does not change the word that is left of a sum. -/
@[simp] theorem wrap_wrap_add (m n : Nat) : wrap (wrap m + n) = wrap (m + n) :=
  Nat.mod_add_mod m bound n

end Lookahead.Word
