import CoinCommit.Coin.Basic
import CoinCommit.Hash.Sha3

/-!
# Leaves

The leaf of an output commits to its transaction, its script and its amount,
written one after another without separators; the fixed widths at both ends
leave no doubt about where the script begins and ends. Only an output with a
positive amount has a leaf in a commitment.

## Main definitions

* `Leaf.preimage`: The bytes that are hashed.
* `Leaf.hash`: The leaf of an output, whatever its amount.
* `Leaf.ofPositive?`, `Utxo.leaf?`: The leaf of an output that has one.
-/

namespace CoinCommit

namespace Leaf

/-- The bytes that the leaf of an output is the hash of. -/
def preimage (txid : Bytes32) (script : Bytes) (amount : Int64) : Bytes :=
  txid.bytes ++ script ++ LittleEndian.ofInt64 amount

/-- The leaf of an output, whatever its amount. -/
def hash (txid : Bytes32) (script : Bytes) (amount : Int64) : Bytes32 :=
  sha3 (preimage txid script amount)

/-- The leaf of an output with a positive amount. -/
def ofPositive? (txid : Bytes32) (script : Bytes) (amount : Int64) : Option Bytes32 :=
  if 0 < amount then some (hash txid script amount) else none

end Leaf

/-- The leaf of a live output, if its amount is positive. -/
def Utxo.leaf? (u : Utxo) : Option Bytes32 := Leaf.ofPositive? u.txid u.script u.amount

end CoinCommit
