import CoinCommit.Proofs.Ledger.Outputs

/-!
# Scans and Look-Ups Agree

A table can be read in four ways: a record can be asked for as it is stored or
as an unspent coin, all records can be scanned, and the first of them listed.
Each way has its own idea of what to do with a value that cannot be read: an
error, an absence, a count, nothing. The four ways agree on which transactions
these are, whatever lies in the table and under whatever keys.

A scan is one walk over the entries in the order of their keys, and a listing is
one walk over what the scan visits. `Walk` and `Listing` are those walks: the
state between two steps is what the reading would be of the part walked so far.
A walk also notes the transactions whose value it has counted as malformed.

## Main definitions

* `Table.Walk`: What a walk over the entries has come across so far.
* `Table.walk`: The walk over all entries.
* `Table.Listing`: What has been kept of the records listed so far.
* `Table.ReadsAs`: What the other readings of a table are by its scan.

## Theorems

* `Table.Walk.step_upTo`, `Table.walk_eq`: A scan is one walk.
* `Table.Listing.foldl_step`: A listing is one walk over a scan.
* `Table.mem_malformedTxids_iff`: Which transactions are counted as malformed.
* `Table.exists_readsAs`: Every table is read in one way.
-/

namespace CoinCommit

theorem CoinRecord.isPruned_eq_false_iff {r : CoinRecord} :
    r.isPruned = false ↔ ∃ output, some output ∈ r.outputs := by
  simp only [isPruned, List.all_eq_false, Bool.not_eq_true, Option.isNone_eq_false_iff,
    Option.isSome_iff_exists]
  constructor
  · rintro ⟨_, hslot, output, rfl⟩
    exact ⟨output, hslot⟩
  · rintro ⟨output, hslot⟩
    exact ⟨some output, hslot, output, rfl⟩

namespace Table

/-- The transaction whose value an entry holds, if the value cannot be read. -/
def malformedTxid? (e : Bytes × Bytes) : Option Bytes32 :=
  (CoinKey.decode? e.1).filter fun txid => isMalformed (CoinRecord.decode txid e.2)

/-- The transactions whose values cannot be read, in the order of their keys. -/
def malformedTxids (t : Table) : List Bytes32 := t.entries.filterMap malformedTxid?

/-- What a walk over the entries has come across so far: the records that were visited, and the
    transactions whose value was counted as malformed. -/
structure Walk where
  visited : List CoinRecord
  malformed : List Bytes32

namespace Walk

/-- Before the first entry. -/
def start : Walk := ⟨[], []⟩

/-- An entry is passed. One under another key than that of a coin is left alone, and so is a pruned
    record. -/
def step (walk : Walk) (e : Bytes × Bytes) : Walk :=
  match CoinKey.decode? e.1 with
  | none => walk
  | some txid =>
      match CoinRecord.decode txid e.2 with
      | .ok r => if r.isPruned then walk else { walk with visited := walk.visited ++ [r] }
      | .error _ => { walk with malformed := walk.malformed ++ [txid] }

/-- What has been come across once some entries are passed. -/
def upTo (entries : List (Bytes × Bytes)) : Walk where
  visited := (entries.filterMap fun e =>
    (CoinKey.decode? e.1).map fun txid => CoinRecord.decode txid e.2).filterMap live?
  malformed := entries.filterMap malformedTxid?

/-- The step over one more entry leads from what is come across before it to what is come across
    with it. -/
theorem step_upTo (entries : List (Bytes × Bytes)) (e : Bytes × Bytes) :
    step (upTo entries) e = upTo (entries ++ [e]) := by
  rw [step, upTo, upTo]
  rcases hkey : CoinKey.decode? e.1 with _ | txid
  · -- Under another key nothing is read, and neither list grows.
    simp only [List.filterMap_append, List.filterMap_cons, List.filterMap_nil, hkey,
      malformedTxid?, Option.map_none, Option.filter_none, List.append_nil]
  · rcases hdec : CoinRecord.decode txid e.2 with error | r
    · -- A malformed value is only counted.
      simp only [List.filterMap_append, List.filterMap_cons, List.filterMap_nil, hkey, hdec,
        malformedTxid?, Option.map_some, Option.filter_some, isMalformed, live?, if_true,
        List.append_nil]
    · by_cases hpruned : r.isPruned = true
      · simp only [List.filterMap_append, List.filterMap_cons, List.filterMap_nil, hkey, hdec,
          malformedTxid?, Option.map_some, Option.filter_some, isMalformed, live?, hpruned,
          if_true, Bool.false_eq_true, if_false, List.append_nil]
      · simp only [List.filterMap_append, List.filterMap_cons, List.filterMap_nil, hkey, hdec,
          malformedTxid?, Option.map_some, Option.filter_some, isMalformed, live?, hpruned,
          Bool.false_eq_true, if_false, List.append_nil]

end Walk

/-- The walk over all entries. -/
def walk (t : Table) : Walk := t.entries.foldl Walk.step Walk.start

/-- A scan is the walk over all entries: the records visited, and the number of those that were
    counted. -/
theorem walk_eq (t : Table) : t.walk = ⟨t.scanCoins.records, t.malformedTxids⟩ :=
  foldl_eq_of_step Walk.step_upTo t.entries

theorem length_malformedTxids (t : Table) : t.malformedTxids.length = t.scanCoins.malformed := by
  simp only [malformedTxids, scanCoins, storedCoins]
  induction t.entries with
  | nil => rfl
  | cons e rest ih =>
      rw [List.filterMap_cons, List.filterMap_cons, malformedTxid?]
      -- An entry under another key adds to neither side.
      rcases CoinKey.decode? e.1 with _ | txid
      · exact ih
      · rw [Option.map_some, Option.filter_some, List.countP_cons]
        by_cases hmal : isMalformed (CoinRecord.decode txid e.2) = true
        · rw [if_pos hmal, if_pos hmal, List.length_cons, ih]
        · rw [if_neg hmal, if_neg hmal, ih, Nat.add_zero]

/-- The transactions counted as malformed are those whose record cannot be had. -/
theorem mem_malformedTxids_iff {t : Table} {txid : Bytes32} :
    txid ∈ t.malformedTxids ↔ ∃ e, t.getCoin txid = .error e := by
  have hentry : txid ∈ t.malformedTxids ↔ ∃ value,
      t.get? (CoinKey.encode txid) = some value ∧
        isMalformed (CoinRecord.decode txid value) = true := by
    simp only [malformedTxids, List.mem_filterMap, malformedTxid?, Option.filter_eq_some_iff,
      CoinKey.decode?_eq_some_iff, get?_eq_some_iff]
    -- A coin key names its transaction, so the entry is the one found under that key.
    constructor
    · rintro ⟨⟨key, value⟩, hmem, rfl, hmal⟩
      exact ⟨value, hmem, hmal⟩
    · rintro ⟨value, hmem, hmal⟩
      exact ⟨(CoinKey.encode txid, value), hmem, rfl, hmal⟩
  rw [hentry, getCoin]
  rcases t.get? (CoinKey.encode txid) with _ | value
  · simp only [reduceCtorEq, false_and, exists_false]
  · rcases hdec : CoinRecord.decode txid value with e | r
    · simp only [Option.some.injEq, hdec, isMalformed, Except.map, exists_eq_left',
        Except.error.injEq, exists_eq']
    · simp only [Option.some.injEq, hdec, isMalformed, Except.map, exists_eq_left', reduceCtorEq,
        Bool.false_eq_true, exists_false]

/-- They are counted in their order, each once. -/
theorem ascending_malformedTxids (t : Table) : t.malformedTxids.Pairwise (· < ·) := by
  refine t.sorted.filterMap _ ?_
  intro e e' hbefore txid htxid txid' htxid'
  rw [malformedTxid?, Option.filter_eq_some_iff, CoinKey.decode?_eq_some_iff] at htxid htxid'
  -- Keys are in the order of their transactions, so the order of the entries is kept.
  have hlt : e.1 < e'.1 := hbefore
  rw [htxid.1, htxid'.1] at hlt
  exact CoinKey.lt_of_encode_lt hlt

/-- What has been kept of the records listed so far, and the number of all that were listed. -/
structure Listing where
  head : List CoinRecord
  count : Nat

namespace Listing

/-- One more record is listed; it is kept unless there are enough. -/
def step (limit : Nat) (listing : Listing) (r : CoinRecord) : Listing :=
  { head := if listing.head.length < limit then listing.head ++ [r] else listing.head
    count := listing.count + 1 }

/-- The first records up to a number, and the number of all, once some records are listed. -/
def upTo (limit : Nat) (records : List CoinRecord) : Listing :=
  ⟨records.take limit, records.length⟩

theorem step_upTo (limit : Nat) (records : List CoinRecord) (r : CoinRecord) :
    step limit (upTo limit records) r = upTo limit (records ++ [r]) := by
  rw [step, upTo, upTo, List.length_append, List.length_singleton, List.length_take]
  by_cases hfull : limit ≤ records.length
  · -- There are enough already, and the record is only counted.
    rw [if_neg (by omega), List.take_append_of_le_length hfull]
  · rw [if_pos (by omega), List.take_of_length_le (by omega),
      List.take_of_length_le (by rw [List.length_append, List.length_singleton]; omega)]

/-- All records of a scan are listed one after another. -/
theorem foldl_step (limit : Nat) (t : Table) :
    t.scanCoins.records.foldl (step limit) ⟨[], 0⟩ = ⟨(t.dump limit).1, (t.dump limit).2⟩ := by
  have hall := foldl_eq_of_step (step_upTo limit) t.scanCoins.records
  rw [upTo, List.take_nil, List.length_nil] at hall
  exact hall

end Listing

/-- What the readings of a table are by what its scan visits and what it counts as malformed. -/
structure ReadsAs (t : Table) (visited : List CoinRecord) (malformed : List Bytes32) : Prop where
  scan : t.source.scan = .ok ⟨visited, malformed.length⟩
  walk : t.walk = ⟨visited, malformed⟩
  ascending : visited.Pairwise fun a b => a.txid < b.txid
  coin_iff : ∀ txid r, t.source.coin txid = .ok (some r) ↔ r ∈ visited ∧ r.txid = txid
  getCoin_visited : ∀ r ∈ visited, t.getCoin r.txid = .ok (some r)
  getCoin_malformed : ∀ txid, (∃ e, t.getCoin txid = .error e) ↔ txid ∈ malformed
  malformed_ascending : malformed.Pairwise (· < ·)
  coin_malformed : ∀ txid ∈ malformed, t.source.coin txid = .ok none
  isUnspent_malformed : ∀ o : Outpoint, o.txid ∈ malformed → t.source.isUnspent o = .ok false
  pruned_iff : ∀ txid r, t.getCoin txid = .ok (some r) →
    (t.source.coin txid = .ok none ↔ r.isPruned = true)
  dump : ∀ limit, (t.dump limit).1 <+: visited ∧
    (t.dump limit).1.length = min limit visited.length ∧ (t.dump limit).2 = visited.length

theorem coin_eq_ok_iff {t : Table} {txid : Bytes32} {found : Option CoinRecord} :
    t.source.coin txid = .ok found ↔ t.unspentCoin? txid = found :=
  ⟨Except.ok.inj, congrArg Except.ok⟩

/-- A look-up of an unspent coin finds what a scan visits. -/
theorem coin_eq_some_iff {t : Table} {txid : Bytes32} {r : CoinRecord} :
    t.source.coin txid = .ok (some r) ↔ r ∈ t.scanCoins.records ∧ r.txid = txid := by
  rw [coin_eq_ok_iff]
  constructor
  · intro hfound
    have htxid := (of_unspentCoin? hfound).1
    exact ⟨mem_records_iff.mpr (htxid ▸ hfound), htxid⟩
  · rintro ⟨hvisited, rfl⟩
    exact mem_records_iff.mp hvisited

/-- An unspent coin is not found where the record is an error. -/
theorem coin_of_getCoin_eq_error {t : Table} {txid : Bytes32} {e : CoinError}
    (h : t.getCoin txid = .error e) : t.source.coin txid = .ok none := by
  rcases hfound : t.unspentCoin? txid with _ | r
  · exact coin_eq_ok_iff.mpr hfound
  · -- A coin that is found has been decoded, which the error excludes.
    rw [(unspentCoin?_eq_some_iff.mp hfound).1] at h
    cases h

/-- Nor is it found where the record has no live output, and there only. -/
theorem coin_eq_none_iff {t : Table} {txid : Bytes32} {r : CoinRecord}
    (h : t.getCoin txid = .ok (some r)) :
    t.source.coin txid = .ok none ↔ r.isPruned = true := by
  rw [coin_eq_ok_iff, Option.eq_none_iff_forall_ne_some]
  constructor
  · intro hnone
    by_contra hlive
    -- A record that is not pruned would be found.
    exact hnone r (unspentCoin?_eq_some_iff.mpr ⟨h, by simpa only [Bool.not_eq_true] using hlive⟩)
  · intro hpruned r' hfound
    rcases unspentCoin?_eq_some_iff.mp hfound with ⟨hget, hlive⟩
    rw [hget] at h
    cases h
    rw [hpruned] at hlive
    cases hlive

/-- Every table is read in one way, whatever lies in it: the scan, the look-ups and the listing tell
    the same of each transaction. -/
theorem exists_readsAs (t : Table) : ∃ visited malformed, t.ReadsAs visited malformed := by
  refine ⟨t.scanCoins.records, t.malformedTxids, ?_⟩
  constructor
  case scan =>
    rw [length_malformedTxids]
    rfl
  case walk => exact t.walk_eq
  case ascending => exact ascending_records t
  case coin_iff => exact fun txid r => coin_eq_some_iff
  case getCoin_visited =>
    exact fun r hr => (unspentCoin?_eq_some_iff.mp (mem_records_iff.mp hr)).1
  case getCoin_malformed => exact fun txid => mem_malformedTxids_iff.symm
  case malformed_ascending => exact t.ascending_malformedTxids
  case coin_malformed =>
    intro txid htxid
    rcases mem_malformedTxids_iff.mp htxid with ⟨e, he⟩
    exact coin_of_getCoin_eq_error he
  case isUnspent_malformed =>
    intro o ho
    rcases mem_malformedTxids_iff.mp ho with ⟨e, he⟩
    rw [Source.isUnspent, coin_of_getCoin_eq_error he]
    rfl
  case pruned_iff => exact fun txid r => coin_eq_none_iff
  case dump =>
    intro limit
    exact ⟨List.take_prefix _ _, List.length_take, rfl⟩

end Table

end CoinCommit
