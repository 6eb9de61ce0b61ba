import CoinCommit.Ledger.Coins

/-!
# Write Batches

Changes to the chain state are made in batches. A batch works on a copy of the
committed table, sees its own changes at once and is seen by no one else until
it is committed; dropping it leaves no trace. Of the writes only a spend has an
answer: whether the output was live, or why its record could not be read. A
spend that answers anything but true changes nothing.

That a batch has a copy of its own and is the only one at a time, and what
comes of committing and of dropping it, is not this library's doing but that of
the store underneath. `Store.Lawful` says what is relied on.

## Main definitions

* `Table.spendOutput`: The effect and the answer of a spend.
* `Write`, `Table.apply`: One change, and the table after it.
* `Session`: The committed table and the batch, if one is open.
* `Session.start`, `commit`, `abandon`, `write`, `spend`: What can be done.
-/

namespace CoinCommit

namespace Table

/-- The table with a record under its key. -/
def putCoin (t : Table) (r : CoinRecord) : Table := t.insert (CoinKey.encode r.txid) r.encode

/-- The table after an output is spent, and whether it was live. The record goes once it has no
    live output left. -/
def spendOutput (t : Table) (o : Outpoint) : Except CoinError Bool × Table :=
  match t.getCoin o.txid with
  | .error e => (.error e, t)
  | .ok none => (.ok false, t)
  | .ok (some r) =>
      match r.spend? o.vout with
      | none => (.ok false, t)
      | some r' =>
          -- A record without live outputs is not kept.
          if r'.isPruned then (.ok true, t.erase (CoinKey.encode o.txid))
          else (.ok true, t.putCoin r')

end Table

/-- A change to the table that has no answer. -/
inductive Write where
  | putCoin (r : CoinRecord)
  | deleteCoin (txid : Bytes32)
  | putTip (height : UInt64)
  | putRaw (key value : Bytes)

/-- The table after a change. -/
def Table.apply (t : Table) : Write → Table
  | .putCoin r => t.putCoin r
  | .deleteCoin txid => t.erase (CoinKey.encode txid)
  | .putTip height => t.insert Tip.key (Tip.encode height)
  | .putRaw key value => t.insert key value

/-- The committed table, and the copy that an open batch works on. -/
structure Session where
  committed : Table
  batch : Option Table

/-- Why a step of a session is refused. -/
inductive SessionError where
  | batchOpen
  | noBatch
deriving DecidableEq

namespace Session

/-- A session on a table with no batch open. -/
def ofTable (t : Table) : Session := ⟨t, none⟩

/-- Opens a batch. -/
def start (s : Session) : Except SessionError Session :=
  match s.batch with
  | some _ => .error .batchOpen
  | none => .ok { s with batch := some s.committed }

/-- Makes the batch the committed table. -/
def commit (s : Session) : Except SessionError Session :=
  match s.batch with
  | some t => .ok ⟨t, none⟩
  | none => .error .noBatch

/-- Drops the batch if one is open. -/
def abandon (s : Session) : Session := { s with batch := none }

/-- A change in the batch. -/
def write (s : Session) (w : Write) : Except SessionError Session :=
  match s.batch with
  | some t => .ok { s with batch := some (t.apply w) }
  | none => .error .noBatch

/-- A spend in the batch, with its answer. -/
def spend (s : Session) (o : Outpoint) :
    Except SessionError (Except CoinError Bool × Session) :=
  match s.batch with
  | some t =>
      let (answer, t') := t.spendOutput o
      .ok (answer, { s with batch := some t' })
  | none => .error .noBatch

end Session

end CoinCommit
