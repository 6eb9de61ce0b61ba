import CoinCommit.Coin.Codec
import CoinCommit.Ledger.Table
import CoinCommit.Ledger.Tip
import CoinCommit.Snapshot.Source
import CoinCommit.Snapshot.Window

/-!
# Reading the Chain State

The coins and the tip that a table holds. Entries under other keys are not
coins and are passed over. A value under a coin's key that cannot be read is
an error for whoever asks for that record, counts as malformed in a scan, and
is as good as absent where only unspent coins are asked for; a pruned record
is a record, but no unspent coin.

## Main definitions

* `Table.getCoin`: The stored record of a transaction.
* `Table.scanCoins`: All records with a live output, in the order of their keys.
* `Table.unspentCoin?`: The record of a transaction, if it has a live output.
* `Table.dump`: The first records and the number of all.
* `Table.tipHeight`, `Table.window`: The tip, and a window that ends there.
* `Table.source`: The table as a source of coins.
-/

namespace CoinCommit

namespace Table

/-- The stored record of a transaction, pruned or not. -/
def getCoin (t : Table) (txid : Bytes32) : Except CoinError (Option CoinRecord) :=
  match t.get? (CoinKey.encode txid) with
  | some value => (CoinRecord.decode txid value).map some
  | none => .ok none

/-- What the values under coin keys decode to, in the order of the keys. -/
def storedCoins (t : Table) : List (Except CoinError CoinRecord) :=
  t.entries.filterMap fun e =>
    (CoinKey.decode? e.1).map fun txid => CoinRecord.decode txid e.2

/-- A decoded record that has a live output. -/
def live? : Except CoinError CoinRecord → Option CoinRecord
  | .ok r => if r.isPruned then none else some r
  | .error _ => none

/-- Whether a value did not decode. -/
def isMalformed : Except CoinError CoinRecord → Bool
  | .ok _ => false
  | .error _ => true

/-- All records with a live output, and the number of values that did not decode. -/
def scanCoins (t : Table) : Scan where
  records := t.storedCoins.filterMap live?
  malformed := t.storedCoins.countP isMalformed

/-- The record of a transaction if it can be read and has a live output. -/
def unspentCoin? (t : Table) (txid : Bytes32) : Option CoinRecord :=
  match t.get? (CoinKey.encode txid) with
  | some value => live? (CoinRecord.decode txid value)
  | none => none

/-- The first records of a scan, and the number of all its records. -/
def dump (t : Table) (limit : Nat) : List CoinRecord × Nat :=
  let records := t.scanCoins.records
  (records.take limit, records.length)

/-- The stored tip height. -/
def tipHeight (t : Table) : Except TipError (Option UInt64) :=
  match t.get? Tip.key with
  | some value => (Tip.decode value).map some
  | none => .ok none

/-- The window with the given ends: from the first height, and up to the tip if there is one. -/
def window (t : Table) (min max : Option UInt64) : Except Fault Window := do
  let upper ← match max with
    | some height => pure height
    | none =>
        match t.tipHeight with
        | .ok tip => pure (tip.getD Window.maxHeight)
        | .error e => throw ⟨.store, e.message⟩
  Window.between (min.getD 0) upper

/-- The table as a source: its scan never fails, and a look-up finds unspent coins only. -/
def source (t : Table) : Source where
  scan := .ok t.scanCoins
  coin txid := .ok (t.unspentCoin? txid)

end Table

end CoinCommit
