import Lookahead.Fault
import Lookahead.Quoted

/-!
# Tokens

A token owns the bytes of a shifted selection and knows where in the stream they
began. It stays valid when the window moves on.

## Main definitions

* `Token`: the bytes and the stream offset of the first.
* `Token.stop`: the stream offset behind the last byte.
* `Token.text`: the bytes and the span, for people to read.
-/
namespace Lookahead

/-- The bytes of a shifted selection and where they began in the stream. -/
structure Token where
  data : List UInt8
  /-- The stream offset of the first byte. -/
  offset : Nat
deriving DecidableEq

namespace Token

/-- The number of bytes. -/
def length (token : Token) : Nat := token.data.length

/-- Whether the token has no byte. -/
def isEmpty (token : Token) : Bool := token.data.isEmpty

/-- The stream offset behind the last byte. -/
def stop (mode : Mode) (token : Token) : Except Fault Nat :=
  mode.add token.offset token.length

/-- The bytes and the span of a token. -/
def text (mode : Mode) (token : Token) : Except Fault String :=
  (token.stop mode).map fun stop =>
    "Token \x7b data: " ++ Quoted.bytes token.data ++ s!", span: {token.offset}..{stop} \x7d"

end Token
end Lookahead
