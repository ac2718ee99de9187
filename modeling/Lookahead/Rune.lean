/-!
# Best-effort UTF-8

The lead byte alone decides how many bytes a character takes. The bytes that
follow are masked and folded in without a check, so malformed input decodes to
something instead of failing; a code point that is no character becomes the
replacement character.

## Main definitions

* `Rune.width`: the number of bytes that a lead byte announces.
* `Rune.codePoint`: the number spelled by a lead byte and its followers.
* `Rune.decode`: the character with that code point.
-/
namespace Lookahead.Rune

/-- The number of bytes announced by a lead byte. Stray continuation bytes stand
for themselves. -/
def width (lead : UInt8) : Nat :=
  if lead < 0xC0 then 1 else if lead < 0xE0 then 2 else if lead < 0xF0 then 3 else 4

/-- The bits of a lead byte that belong to the code point. -/
def leadBits (lead : UInt8) : Nat :=
  match width lead with
  | 1 => lead.toNat
  | 2 => lead.toNat % 0x20
  | 3 => lead.toNat % 0x10
  | _ => lead.toNat % 0x08

/-- The number spelled by a lead byte and the bytes that follow it, six bits
each. -/
def codePoint (lead : UInt8) (followers : List UInt8) : Nat :=
  followers.foldl (fun code byte => 64 * code + byte.toNat % 64) (leadBits lead)

/-- The replacement character. -/
def replacement : Char := '\uFFFD'

/-- The character with the given code point, or the replacement character. -/
def ofCodePoint (code : Nat) : Char :=
  if code.isValidChar then Char.ofNat code else replacement

/-- The character spelled by a lead byte and the bytes that follow it. -/
def decode (lead : UInt8) (followers : List UInt8) : Char :=
  ofCodePoint (codePoint lead followers)

theorem width_pos (lead : UInt8) : 0 < width lead := by
  grind [width]

theorem width_le (lead : UInt8) : width lead ≤ 4 := by
  grind [width]

end Lookahead.Rune
