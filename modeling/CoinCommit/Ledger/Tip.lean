import CoinCommit.Bytes.LittleEndian

/-!
# The Tip Height

The height of the newest block lies in the chain state beside the coins, under
a key of one byte.

## Main definitions

* `Tip.key`: Its key.
* `Tip.encode`, `Tip.decode`: Its value.
* `TipError`: Why a value is not a height.
-/

namespace CoinCommit

/-- Why a value is not a tip height: it does not have eight bytes. -/
inductive TipError where
  | wrongLength (length : Nat)
deriving DecidableEq

/-- The text of the error. -/
def TipError.message : TipError → String
  | .wrongLength length => "tip height: expected 8 bytes, got " ++ Nat.repr length

namespace Tip

/-- The key of the tip height. -/
def key : Bytes := [0x42]

/-- The value under which a height is stored. -/
def encode (height : UInt64) : Bytes := LittleEndian.ofUInt64 height

/-- The height whose value is given. -/
def decode (value : Bytes) : Except TipError UInt64 :=
  if value.length = 8 then .ok (LittleEndian.toUInt64 value)
  else .error (.wrongLength value.length)

end Tip

end CoinCommit
