import CoinCommit.Coin.Basic
import CoinCommit.Fault

/-!
# Sources of Coins

A snapshot is taken of a source: something that can be scanned from end to end
and asked for single records. Both may fail, and they need not agree with each
other; what is promised about a particular source is proved of that source.
A scan also reports how many stored values it could not read.

## Main definitions

* `Source`: A scan and a look-up.
* `Source.isUnspent`: Whether the look-up finds an output live.
* `Source.ofRecords`: The source of a list of records.
-/

namespace CoinCommit

/-- What a scan yields: the records in the order visited, and the number of values skipped because
    they could not be read. -/
structure Scan where
  records : List CoinRecord
  malformed : Nat

/-- A scan over all records and a look-up of single ones. -/
structure Source where
  scan : Except Fault Scan
  coin : Bytes32 → Except Fault (Option CoinRecord)

namespace Source

/-- Whether the look-up finds the output live. -/
def isUnspent (s : Source) (o : Outpoint) : Except Fault Bool := do
  match ← s.coin o.txid with
  | some r => return (r.output? o.vout).isSome
  | none => return false

/-- The source of a list of records: a scan visits them in order, and a look-up finds the first
    record of a transaction. -/
def ofRecords (records : List CoinRecord) : Source where
  scan := .ok ⟨records, 0⟩
  coin txid := .ok (records.find? fun r => r.txid = txid)

end Source

end CoinCommit
