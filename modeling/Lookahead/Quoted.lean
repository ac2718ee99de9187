/-!
# Quoted bytes

Bytes as text between double quotes, led by a `b`. Printable ASCII stands for
itself, six bytes have a short escape, and every other byte is written with two
lower-case hexadecimal digits.

## Main definitions

* `Quoted.byte`: the text of one byte.
* `Quoted.bytes`: the quoted text of a list of bytes.
-/
namespace Lookahead.Quoted

/-- The digit of a number below sixteen. -/
def hexDigit (n : Nat) : Char := Nat.digitChar n

/-- The text of one byte inside the quotes. -/
def byte (b : UInt8) : List Char :=
  match b.toNat with
  | 0x0A => ['\\', 'n']
  | 0x0D => ['\\', 'r']
  | 0x09 => ['\\', 't']
  | 0x5C => ['\\', '\\']
  | 0x22 => ['\\', '"']
  | 0x00 => ['\\', '0']
  | n =>
    if 0x20 ≤ n ∧ n < 0x7F then [Char.ofNat n]
    else ['\\', 'x', hexDigit (n / 16), hexDigit (n % 16)]

/-- The text of a list of bytes, with the quotes and the leading `b`. -/
def bytes (bs : List UInt8) : String :=
  "b\"" ++ String.ofList (bs.flatMap byte) ++ "\""

end Lookahead.Quoted
