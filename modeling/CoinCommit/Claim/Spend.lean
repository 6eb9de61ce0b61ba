import CoinCommit.Bytes.CompactSize
import CoinCommit.Coin.Leaf

/-!
# Spends

A claim is authorised by signing a spend of the claimed output: one input, one
output to a destination. What is signed is a digest of all its fields and of
the output's leaf, so that a signature holds for that leaf alone. The lengths
of script and destination are written in front of them, which keeps bytes from
passing from one field into the next.

## Main definitions

* `Spend`: The spend of an output to a destination.
* `Spend.ofUtxo`: The spend of a live output.
* `Spend.preimage`, `Spend.digest`: What is hashed, and what is signed.
-/

namespace CoinCommit

/-- The spend of one output to a destination, with the leaf of the output. -/
structure Spend where
  txid : Bytes32
  vout : UInt32
  amount : Int64
  script : Bytes
  destination : Bytes
  leaf : Bytes32
deriving DecidableEq

namespace Spend

/-- The spend of a live output. -/
def ofUtxo (u : Utxo) (destination : Bytes) : Spend :=
  ⟨u.txid, u.vout, u.amount, u.script, destination, Leaf.hash u.txid u.script u.amount⟩

/-- The bytes that set digests of spends apart from all other digests: the text
    `UTXOROOT-claim-sighash/`. -/
def domain : Bytes :=
  [0x55, 0x54, 0x58, 0x4f, 0x52, 0x4f, 0x4f, 0x54, 0x2d, 0x63, 0x6c, 0x61, 0x69, 0x6d, 0x2d, 0x73,
    0x69, 0x67, 0x68, 0x61, 0x73, 0x68, 0x2f]

/-- The bytes that are hashed for a signature. -/
def preimage (s : Spend) : Bytes :=
  domain ++ s.txid.bytes ++ LittleEndian.ofUInt32 s.vout ++ LittleEndian.ofInt64 s.amount ++
    CompactSize.ofLength s.script.length ++ s.script ++
    CompactSize.ofLength s.destination.length ++ s.destination ++ s.leaf.bytes

/-- The digest that is signed. -/
def digest (s : Spend) : Bytes32 := sha3 s.preimage

end Spend

end CoinCommit
