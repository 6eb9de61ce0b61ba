import CoinCommit.Proofs.Ledger.Readings
import CoinCommit.Proofs.Snapshot.Collection

/-!
# A Table and Its Records

A table is a source of coins, and so is a list of records. The table holds raw
bytes: entries of other kinds under other keys, keys that only look like those
of coins, records that are pruned, values that cannot be read. The list holds
records and nothing else. If the list has the records of the table that can be
read and have a live output, the two sources agree, in whatever order the list
has them. So everything else that lies in a table influences no root, no proof
and no answer about an output, only the number of values that were skipped.

## Main definitions

* `Table.Lists`: The records of a table that a snapshot can be made of.
* `Table.ListsMalformed`: The coins of a table that cannot be read.
* `Snapshot.SameOutputs`: Snapshots that differ in what was skipped, if at all.

## Theorems

* `Table.Lists.perm`: The records are those of a scan.
* `Table.Lists.coin_eq`: Look-ups in the list find what look-ups in the table
  find.
* `Snapshot.sameOutputs_of_perm`: The snapshots of two scans of the same records.
* `Table.agrees_with_records`: The two sources agree.
-/

namespace CoinCommit

namespace Table

/-- The records that are read from values under keys of 33 bytes with the tag of a coin in front,
    and that have a live output. A value is read as a record of the transaction in its key, so no
    two entries give the same record. -/
structure Lists (t : Table) (records : List CoinRecord) : Prop where
  nodup : records.Nodup
  mem_iff : ∀ r, r ∈ records ↔ ∃ (txid : Bytes32) (value : Bytes),
    (0x63 :: txid.bytes, value) ∈ t.entries ∧ CoinRecord.decode txid value = .ok r ∧
      ∃ output, some output ∈ r.outputs

/-- The transactions in keys of 33 bytes with the tag of a coin in front, under which lies a value
    that cannot be read. -/
structure ListsMalformed (t : Table) (txids : List Bytes32) : Prop where
  nodup : txids.Nodup
  mem_iff : ∀ txid, txid ∈ txids ↔ ∃ (value : Bytes) (e : CoinError),
    (0x63 :: txid.bytes, value) ∈ t.entries ∧ CoinRecord.decode txid value = .error e

theorem nodup_records (t : Table) : t.scanCoins.records.Nodup := by
  -- Two records of one transaction would be before each other.
  refine (ascending_records t).imp ?_
  rintro a b hlt rfl
  exact List.lt_irrefl a.txid.bytes hlt

theorem lists_records (t : Table) : t.Lists t.scanCoins.records where
  nodup := t.nodup_records
  mem_iff r := by
    simp only [scanCoins, List.mem_filterMap, mem_storedCoins, live?_eq_some_iff,
      CoinRecord.isPruned_eq_false_iff, get?_eq_some_iff]
    constructor
    · rintro ⟨_, ⟨txid, value, hmem, rfl⟩, hdec, hlive⟩
      exact ⟨txid, value, hmem, hdec, hlive⟩
    · rintro ⟨txid, value, hmem, hdec, hlive⟩
      exact ⟨_, ⟨txid, value, hmem, rfl⟩, hdec, hlive⟩

theorem listsMalformed_malformedTxids (t : Table) : t.ListsMalformed t.malformedTxids where
  nodup := by
    refine t.ascending_malformedTxids.imp ?_
    rintro a b hlt rfl
    exact List.lt_irrefl a.bytes hlt
  mem_iff txid := by
    rw [mem_malformedTxids_iff, getCoin]
    simp only [← get?_eq_some_iff]
    -- A value lies under the key of the transaction, or none does.
    change _ ↔ ∃ value e, t.get? (CoinKey.encode txid) = some value ∧ _
    rcases t.get? (CoinKey.encode txid) with _ | value
    · simp only [reduceCtorEq, false_and, exists_false]
    · simp only [Option.some.injEq, exists_and_left, exists_eq_left']
      rcases CoinRecord.decode txid value with e | r
      · simp only [Except.map, Except.error.injEq]
      · simp only [Except.map, reduceCtorEq, exists_false]

namespace Lists

variable {t : Table} {records : List CoinRecord}

theorem of_perm (h : t.Lists records) {records' : List CoinRecord} (hperm : records'.Perm records) :
    t.Lists records' where
  nodup := hperm.nodup_iff.mpr h.nodup
  mem_iff r := hperm.mem_iff.trans (h.mem_iff r)

/-- The records are those that a scan of the table visits. -/
theorem perm (h : t.Lists records) : records.Perm t.scanCoins.records := by
  refine (List.perm_ext_iff_of_nodup h.nodup t.nodup_records).mpr ?_
  intro r
  rw [h.mem_iff, t.lists_records.mem_iff]

/-- The first record of a transaction in the list is the only one, and the table has it. -/
theorem coin_eq (h : t.Lists records) (txid : Bytes32) :
    (Source.ofRecords records).coin txid = t.source.coin txid := by
  refine congrArg Except.ok ?_
  -- Both look-ups find the record of the transaction that the table has.
  have hmem : ∀ r, r ∈ records ∧ r.txid = txid ↔ t.unspentCoin? txid = some r := by
    intro r
    rw [h.perm.mem_iff, ← coin_eq_some_iff, coin_eq_ok_iff]
  have hfound : ∀ r, (records.find? fun r => r.txid = txid) = some r →
      t.unspentCoin? txid = some r := fun r hfind =>
    (hmem r).mp ⟨List.mem_of_find?_eq_some hfind, by simpa using List.find?_some hfind⟩
  refine Option.ext fun r => ⟨hfound r, fun hr => ?_⟩
  -- The list has the record, so something is found in it, and that is what the table has.
  rcases (hmem r).mpr hr with ⟨hin, htxid⟩
  rcases hfind : records.find? fun r => r.txid = txid with _ | r'
  · exact absurd (decide_eq_true htxid) (List.find?_eq_none.mp hfind r hin)
  · rw [hfind, ← hr, hfound r' hfind]

theorem isUnspent_eq (h : t.Lists records) (o : Outpoint) :
    (Source.ofRecords records).isUnspent o = t.source.isUnspent o := by
  rw [Source.isUnspent, Source.isUnspent, h.coin_eq]

end Lists

end Table

namespace Snapshot

/-- The snapshots have the same leaves and so the same root and proofs, and their scans have come
    across the same outputs. They may differ in the number of values that were skipped. -/
structure SameOutputs (s s' : Snapshot) : Prop where
  window : s.window = s'.window
  leaves : s.leaves = s'.leaves
  root : s.root = s'.root
  proofs : ∀ i, s.leaves.prove? i = s'.leaves.prove? i
  tally : { s.tally with malformedSkipped := 0 } = { s'.tally with malformedSkipped := 0 }

/-- Scans that visit the same records in whatever order, and skip whatever they skip. -/
theorem sameOutputs_of_perm (w : Window) {scan scan' : Scan}
    (h : scan.records.Perm scan'.records) : (ofScan w scan).SameOutputs (ofScan w scan') := by
  -- Had neither skipped anything, the snapshots would be the same.
  have haccounts : Accounts w ⟨scan'.records, 0⟩ (ofScan w ⟨scan.records, 0⟩) :=
    (ofScan_accounts w ⟨scan.records, 0⟩).of_perm h rfl
  have hsame := haccounts.unique (ofScan_accounts w ⟨scan'.records, 0⟩)
  -- Leaves do not depend on what was skipped.
  have hleaves : (ofScan w scan).leaves = (ofScan w scan').leaves := by
    change (ofScan w ⟨scan.records, 0⟩).leaves = (ofScan w ⟨scan'.records, 0⟩).leaves
    rw [hsame]
  constructor
  case window => rfl
  case leaves => exact hleaves
  case root => rw [root, root, hleaves]
  case proofs =>
    intro i
    rw [hleaves]
  case tally =>
    change (ofScan w ⟨scan.records, 0⟩).tally = (ofScan w ⟨scan'.records, 0⟩).tally
    rw [hsame]

end Snapshot

/-- A table and a list of its records agree on the snapshot over every window and on every output.
    The table has skipped as many values as there are coins that cannot be read. Any other table
    with these records agrees as well, whatever else the two tables hold. -/
theorem Table.agrees_with_records (t : Table) (records : List CoinRecord) (h : t.Lists records)
    (w : Window) :
    ∃ s m txids, Snapshot.collect t.source w = .ok s ∧
      Snapshot.collect (Source.ofRecords records) w = .ok m ∧ s.SameOutputs m ∧
      t.ListsMalformed txids ∧ s.tally.malformedSkipped = txids.length ∧
      (∀ o, t.source.isUnspent o = (Source.ofRecords records).isUnspent o) ∧
      ∀ u : Table, u.Lists records → ∃ s', Snapshot.collect u.source w = .ok s' ∧
        s'.SameOutputs s ∧ ∀ o, u.source.isUnspent o = t.source.isUnspent o := by
  have hrecords : (⟨records, 0⟩ : Scan).records.Perm t.scanCoins.records := h.perm
  refine ⟨Snapshot.ofScan w t.scanCoins, Snapshot.ofScan w ⟨records, 0⟩, t.malformedTxids, rfl, rfl,
    Snapshot.sameOutputs_of_perm w hrecords.symm, t.listsMalformed_malformedTxids,
    t.length_malformedTxids.symm, fun o => (h.isUnspent_eq o).symm, ?_⟩
  intro u hu
  refine ⟨Snapshot.ofScan w u.scanCoins, rfl,
    Snapshot.sameOutputs_of_perm w (hu.perm.symm.trans h.perm), ?_⟩
  intro o
  -- Either source says of the output what the list says.
  rw [← hu.isUnspent_eq, h.isUnspent_eq]

namespace Lumber

/-- A record with two live outputs, one of which holds nothing. -/
def first : CoinRecord := ⟨Bytes32.fill 3, 40, true, [none, some ⟨700, [1, 2]⟩, some ⟨0, []⟩]⟩

/-- A record with one live output. -/
def second : CoinRecord := ⟨Bytes32.fill 8, 90, false, [some ⟨80, [5]⟩]⟩

/-- A record without live outputs. -/
def pruned : CoinRecord := ⟨Bytes32.fill 4, 41, false, [none, none]⟩

/-- Between the two records lie a pruned one and a value that cannot be read; a value that could be
    read lies under a key that is too short, another under one with another tag, and there is a
    tip. -/
def table : Table :=
  (((((Table.empty.putCoin second).putCoin first).putCoin pruned).insert
    (CoinKey.encode (Bytes32.fill 5)) [1, 2, 3]).insert
    (0x63 :: List.replicate 31 6) second.encode).insert
    (0x64 :: List.replicate 32 7) second.encode |>.insert Tip.key (Tip.encode 95)

end Lumber

/-- Of seven entries two are records that count. Listed the other way round they make the same
    snapshot, and one value was skipped. -/
theorem Table.agrees_with_records_among_others :
    Lumber.table.Lists [Lumber.second, Lumber.first] ∧ Lumber.table.entries.length = 7 ∧
      ∃ s m, Snapshot.collect Lumber.table.source Window.all = .ok s ∧
        Snapshot.collect (Source.ofRecords [Lumber.second, Lumber.first]) Window.all = .ok m ∧
          s.SameOutputs m ∧ s.tally = ⟨2, 3, 0, 1, 2, 1⟩ := by
  have hrecords : Lumber.table.scanCoins.records = [Lumber.first, Lumber.second] := by
    decide +kernel
  have hlists : Lumber.table.Lists [Lumber.second, Lumber.first] := by
    refine Lumber.table.lists_records.of_perm ?_
    rw [hrecords]
    exact List.Perm.swap _ _ _
  have htally : (Snapshot.ofScan Window.all Lumber.table.scanCoins).tally = ⟨2, 3, 0, 1, 2, 1⟩ := by
    decide +kernel
  rcases agrees_with_records Lumber.table _ hlists Window.all with
    ⟨s, m, txids, hs, hm, hsame, _⟩
  cases hs
  exact ⟨hlists, by decide +kernel, _, m, rfl, hm, hsame, htally⟩

end CoinCommit
