import CoinCommit.Bytes.Basic

/-!
# Coins

A transaction's outputs are kept together in one coin record, each in the slot
of its number. Spending empties a slot and keeps the others in place, so an
output's number never changes; a record whose slots are all empty is pruned.
A `Utxo` is one live output on its own, with what identifies it.

## Main definitions

* `Outpoint`: A transaction and the number of one of its outputs.
* `Output`: An amount locked by a script.
* `CoinRecord`: The outputs of one transaction, live or spent.
* `Utxo`: A live output with its outpoint and height.
* `CoinRecord.utxos`: The live outputs of a record, in the order of their slots.
-/

namespace CoinCommit

/-- The output of a transaction, by number. -/
structure Outpoint where
  txid : Bytes32
  vout : UInt32
deriving DecidableEq

namespace Outpoint

/-- The order of outpoints: by transaction, then by number. -/
def before (a b : Outpoint) : Bool :=
  decide (a.txid < b.txid) || (decide (a.txid = b.txid) && decide (a.vout ≤ b.vout))

end Outpoint

/-- An amount and the script that locks it. -/
structure Output where
  amount : Int64
  script : Bytes
deriving DecidableEq

/-- The outputs of one transaction; a slot is empty once its output is spent. -/
structure CoinRecord where
  txid : Bytes32
  height : UInt64
  coinbase : Bool
  outputs : List (Option Output)
deriving DecidableEq

/-- A live output with its outpoint and the height of its transaction. -/
structure Utxo where
  txid : Bytes32
  vout : UInt32
  script : Bytes
  amount : Int64
  height : UInt64
deriving DecidableEq

namespace Utxo

/-- Where the output stands. -/
def outpoint (u : Utxo) : Outpoint := ⟨u.txid, u.vout⟩

/-- Whether the output holds anything. -/
def isSpendable (u : Utxo) : Bool := 0 < u.amount

end Utxo

namespace CoinRecord

/-- The live outputs, in the order of their slots. -/
def utxos (r : CoinRecord) : List Utxo :=
  r.outputs.zipIdx.filterMap fun slot =>
    slot.1.map fun output =>
      ⟨r.txid, UInt32.ofNat slot.2, output.script, output.amount, r.height⟩

/-- The live output of a number. -/
def output? (r : CoinRecord) (vout : UInt32) : Option Output := (r.outputs[vout.toNat]?).join

/-- Whether no output is live. -/
def isPruned (r : CoinRecord) : Bool := r.outputs.all Option.isNone

/-- The record after its output of a number is spent; absent if that output is not live. -/
def spend? (r : CoinRecord) (vout : UInt32) : Option CoinRecord :=
  match r.output? vout with
  | some _ => some { r with outputs := r.outputs.set vout.toNat none }
  | none => none

end CoinRecord

end CoinCommit
