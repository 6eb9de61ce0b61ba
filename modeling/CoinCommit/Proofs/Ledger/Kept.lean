import CoinCommit.Proofs.Coin.Form
import CoinCommit.Proofs.Ledger.SpendEffect
import CoinCommit.Proofs.Snapshot.Collection

/-!
# What Becomes of a Record That Is Put

A record is put into a batch, the batch goes on and is committed. As long as
nothing else is written under the key of the record, its form is what lies there
afterwards, whatever the table held before and whatever it holds besides. What
this is worth depends on the record alone. One within the limits is found by
every look-up and by the scan, and each of its outputs that holds something has
its leaf in the snapshots. One beyond the limits was accepted as well, but
nothing that is read of the table shows it, and all that is left of it is that a
scan counts one more value that it could not read.

A table is compared with the table without the key, so `Shows` and `Hides` say
what the record adds to what is read, and that it adds nothing else.

## Main definitions

* `Session.Undisturbed`: A batch goes on without a write under a transaction's
  key.
* `Table.Shows`: A table that differs by a record from the table without it.
* `Table.Hides`: A table that differs by a malformed value only.

## Theorems

* `Session.Undisturbed.get?_eq`: What lies under the key stays there.
* `Table.shows_of_get?`, `Table.hides_of_get?`: What a record's form adds to a
  table.
* `Session.shows_put`: Which of the two a record that was put and committed
  gets.
* `Session.put_long_script`: A record with a long script is put and lost.
-/

namespace CoinCommit

/-- A change that may put something else under the key of a transaction's record. -/
def Write.Touches (txid : Bytes32) : Write → Prop
  | .putCoin r => r.txid = txid
  | .deleteCoin txid' => txid' = txid
  | .putTip _ => False
  | .putRaw key _ => key = CoinKey.encode txid

namespace Table

variable {t : Table} {txid : Bytes32}

theorem get?_apply {w : Write} (h : ¬ w.Touches txid) :
    (t.apply w).get? (CoinKey.encode txid) = t.get? (CoinKey.encode txid) := by
  -- Every write but that of the tip is under a key that is not this one.
  cases w with
  | putCoin r =>
      have hne : CoinKey.encode txid ≠ CoinKey.encode r.txid :=
        fun he => h (CoinKey.encode_injective he).symm
      rw [apply, putCoin, get?_insert, if_neg hne]
  | deleteCoin txid' =>
      have hne : CoinKey.encode txid ≠ CoinKey.encode txid' :=
        fun he => h (CoinKey.encode_injective he).symm
      rw [apply, get?_erase, if_neg hne]
  | putTip height => rw [apply, get?_insert, if_neg (CoinKey.encode_ne_tipKey txid)]
  | putRaw key value =>
      have hne : CoinKey.encode txid ≠ key := fun he => h he.symm
      rw [apply, get?_insert, if_neg hne]

theorem get?_spendOutput_of_refused {o : Outpoint}
    (h : o.txid = txid → (t.spendOutput o).1 ≠ .ok true) :
    (t.spendOutput o).2.get? (CoinKey.encode txid) = t.get? (CoinKey.encode txid) := by
  by_cases hkey : CoinKey.encode txid = CoinKey.encode o.txid
  · -- A spend that is refused leaves the table as it is, and any other is under another key.
    rw [spendOutput_of_ne_true (h (CoinKey.encode_injective hkey).symm)]
  · rw [get?_spendOutput, if_neg hkey]

end Table

/-- The batch of one session goes on to that of another, and nothing is written under the key of a
    transaction's record. A spend from that record is allowed as long as it is refused. -/
inductive Session.Undisturbed (txid : Bytes32) : Session → Session → Prop where
  | refl (s : Session) : s.Undisturbed txid s
  | write {s s' s'' : Session} {w : Write} (other : ¬ w.Touches txid) (step : s.write w = .ok s')
      (rest : s'.Undisturbed txid s'') : s.Undisturbed txid s''
  | spend {s s' s'' : Session} {o : Outpoint} {answer : Except CoinError Bool}
      (other : o.txid = txid → answer ≠ .ok true) (step : s.spend o = .ok (answer, s'))
      (rest : s'.Undisturbed txid s'') : s.Undisturbed txid s''

theorem Session.Undisturbed.get?_eq {txid : Bytes32} {s s' : Session}
    (h : s.Undisturbed txid s') {t : Table} (hbatch : s.batch = some t) :
    ∃ t', s'.batch = some t' ∧
      t'.get? (CoinKey.encode txid) = t.get? (CoinKey.encode txid) := by
  -- Along the steps. The value under the key goes through each of them unchanged.
  induction h generalizing t with
  | refl s => exact ⟨t, hbatch, rfl⟩
  | @write s s₁ s₂ w other step rest ih =>
      rw [Session.write, hbatch] at step
      cases step
      rcases ih rfl with ⟨t', hbatch', hget⟩
      exact ⟨t', hbatch', hget.trans (Table.get?_apply other)⟩
  | @spend s s₁ s₂ o answer other step rest ih =>
      rw [Session.spend, hbatch] at step
      cases step
      rcases ih rfl with ⟨t', hbatch', hget⟩
      exact ⟨t', hbatch', hget.trans (Table.get?_spendOutput_of_refused other)⟩

namespace Table

/-- The table without the record of a transaction. -/
def without (t : Table) (txid : Bytes32) : Table := t.erase (CoinKey.encode txid)

/-- Look-ups find the record, a scan visits it once and counts no more malformed values for it, and
    its leaves are in the snapshots over the windows that have its height. -/
structure Shows (t : Table) (r : CoinRecord) : Prop where
  getCoin : t.getCoin r.txid = .ok (some r)
  coin : t.source.coin r.txid = .ok (some r)
  scan : ∃ scan, t.source.scan = .ok scan ∧
    (scan.records.filter fun r' => r'.txid = r.txid) = [r] ∧
      scan.malformed = (t.without r.txid).scanCoins.malformed
  leaves : ∀ w : Window, w.contains r.height = true →
    ∃ s others, Snapshot.collect t.source w = .ok s ∧
      Snapshot.collect (t.without r.txid).source w = .ok others ∧
        s.leaves.toList.Perm (r.leaves ++ others.leaves.toList)

/-- No look-up finds the record and no scan visits it, the snapshots are those without it, and there
    is one more malformed value. -/
structure Hides (t : Table) (r : CoinRecord) : Prop where
  getCoin : ∃ e, t.getCoin r.txid = .error e
  coin : t.source.coin r.txid = .ok none
  scan : ∃ scan, t.source.scan = .ok scan ∧
    scan.records = (t.without r.txid).scanCoins.records ∧
      scan.malformed = (t.without r.txid).scanCoins.malformed + 1
  leaves : ∀ w : Window, ∃ s others, Snapshot.collect t.source w = .ok s ∧
    Snapshot.collect (t.without r.txid).source w = .ok others ∧ s.leaves = others.leaves

variable {t : Table} {r : CoinRecord}

theorem txid_ne_of_mem_without {txid : Bytes32} {r' : CoinRecord}
    (h : r' ∈ (t.without txid).scanCoins.records) : r'.txid ≠ txid := by
  intro htxid
  have hfound := mem_records_iff.mp h
  rw [htxid, unspentCoin?, without, get?_erase, if_pos rfl] at hfound
  cases hfound

/-- The records of a scan are in one order only. -/
theorem records_eq_of_perm {u : Table} (h : t.scanCoins.records.Perm u.scanCoins.records) :
    t.scanCoins.records = u.scanCoins.records := by
  have ht : Ascending CoinRecord.txid t.scanCoins.records := ascending_records t
  have hu : Ascending CoinRecord.txid u.scanCoins.records := ascending_records u
  exact ht.eq_of_mem_iff hu fun r => h.mem_iff

/-- What lies under the key of a record within the limits is the record. -/
theorem shows_of_get? (hget : t.get? (CoinKey.encode r.txid) = some r.encode)
    (hlimits : r.WithinLimits) (hlive : r.isPruned = false) : t.Shows r := by
  have hdecode := CoinRecord.decode_encode hlimits
  -- The entry is one, and all others are those of the table without it.
  have hentry := perm_entries_of_get? t hget
  have hfound : live? (.ok r) = some r := live?_eq_some_iff.mpr ⟨rfl, hlive⟩
  have hrecords : t.scanCoins.records.Perm (r :: (t.without r.txid).scanCoins.records) := by
    have hperm := perm_records hentry
    rw [hdecode, hfound] at hperm
    exact hperm
  constructor
  case getCoin =>
    rw [Table.getCoin, hget]
    exact congrArg (Except.map some) hdecode
  case coin =>
    have hcoin : t.unspentCoin? r.txid = some r := by
      simp only [unspentCoin?, hget, hdecode, hfound]
    exact congrArg Except.ok hcoin
  case scan =>
    refine ⟨t.scanCoins, rfl, ?_, ?_⟩
    · -- No other record is of this transaction, so the filter leaves the one.
      have hothers : ((t.without r.txid).scanCoins.records.filter
          fun r' => r'.txid = r.txid) = [] := by
        rw [List.filter_eq_nil_iff]
        intro r' hr' htxid
        exact txid_ne_of_mem_without hr' (of_decide_eq_true htxid)
      have hperm := hrecords.filter fun r' => r'.txid = r.txid
      rw [List.filter_cons, if_pos (decide_eq_true rfl), hothers] at hperm
      exact List.perm_singleton.mp hperm
    · rw [malformed_eq hentry, hdecode]
      rfl
  case leaves =>
    intro w hw
    refine ⟨_, _, rfl, rfl, ?_⟩
    have hbounds : w.min ≤ r.height ∧ r.height ≤ w.max := Window.contains_iff.mp hw
    -- The leaves of a snapshot are those of its records, one record after another.
    have hwith := (Snapshot.ofScan_accounts w t.scanCoins).leaves
    have hwithout := (Snapshot.ofScan_accounts w (t.without r.txid).scanCoins).leaves
    have hperm := (hrecords.filter fun r' => w.min ≤ r'.height ∧ r'.height ≤ w.max).flatMap_right
      CoinRecord.leaves
    rw [List.filter_cons, if_pos (decide_eq_true hbounds), List.flatMap_cons] at hperm
    exact (hwith.trans hperm).trans (hwithout.symm.append_left _)

/-- What lies under the key of a record beyond the limits is a value that cannot be read. -/
theorem hides_of_get? (hget : t.get? (CoinKey.encode r.txid) = some r.encode)
    (hlimits : ¬ r.WithinLimits) : t.Hides r := by
  -- What is written of the record is refused, whatever the reason.
  rcases CoinRecord.decode_encode_eq_error hlimits with ⟨e, hdecode⟩
  have hentry := perm_entries_of_get? t hget
  have hrecords : t.scanCoins.records = (t.without r.txid).scanCoins.records := by
    have hperm := perm_records hentry
    rw [hdecode] at hperm
    exact records_eq_of_perm hperm
  constructor
  case getCoin =>
    refine ⟨e, ?_⟩
    rw [Table.getCoin, hget]
    exact congrArg (Except.map some) hdecode
  case coin =>
    have hcoin : t.unspentCoin? r.txid = none := by
      simp only [unspentCoin?, hget, hdecode, live?]
    exact congrArg Except.ok hcoin
  case scan =>
    refine ⟨t.scanCoins, rfl, hrecords, ?_⟩
    rw [malformed_eq hentry, hdecode]
    rfl
  case leaves =>
    intro w
    refine ⟨_, _, rfl, rfl, ?_⟩
    change LeafList.ofList _ = LeafList.ofList _
    rw [hrecords]

end Table

/-- A record with a live output that is put and committed shows in all that is read, if it keeps to
    the limits. Otherwise it was accepted all the same, and nothing shows it but the number of
    malformed values. -/
theorem Session.shows_put (s s₁ s₂ s₃ : Session) (r : CoinRecord)
    (hlive : ∃ output, some output ∈ r.outputs) (hput : s.write (.putCoin r) = .ok s₁)
    (hlater : s₁.Undisturbed r.txid s₂) (hcommit : s₂.commit = .ok s₃) :
    (r.WithinLimits → s₃.committed.Shows r) ∧ (¬ r.WithinLimits → s₃.committed.Hides r) := by
  have hpruned : r.isPruned = false := by
    rcases hlive with ⟨output, hout⟩
    by_contra hpruned
    rw [Bool.not_eq_false, CoinRecord.isPruned, List.all_eq_true] at hpruned
    cases hpruned _ hout
  -- The value was put into the batch, stayed there, and was published with it.
  have hget : s₃.committed.get? (CoinKey.encode r.txid) = some r.encode := by
    rcases hbatch : s.batch with _ | t
    · rw [Session.write, hbatch] at hput
      cases hput
    · rw [Session.write, hbatch] at hput
      cases hput
      rcases hlater.get?_eq rfl with ⟨t', hbatch', hget⟩
      rw [Session.commit, hbatch'] at hcommit
      cases hcommit
      rw [hget, Table.apply, Table.putCoin, Table.get?_insert, if_pos rfl]
  exact ⟨fun hlimits => Table.shows_of_get? hget hlimits hpruned, Table.hides_of_get? hget⟩

namespace Deposit

/-- A table with a value that cannot be read, under the key of some transaction. -/
def before : Table := Table.empty.insert (CoinKey.encode (Bytes32.fill 9)) [1, 2, 3]

/-- A record with two outputs, one of which holds nothing, and a spent slot. -/
def record : CoinRecord :=
  ⟨Bytes32.fill 5, 40, true, [some ⟨700, [1]⟩, none, some ⟨0, []⟩]⟩

/-- The batch after the record is put. -/
def put : Table := before.putCoin record

/-- The slot of the record that is spent already. -/
def empty : Outpoint := ⟨Bytes32.fill 5, 1⟩

/-- The batch after one more spend of that slot and a change of the tip. -/
def later : Table := (put.spendOutput empty).2.insert Tip.key (Tip.encode 41)

/-- A record with one output, the script of which is longer than can be read back by a byte. -/
def long : CoinRecord := ⟨Bytes32.fill 5, 40, true, [some ⟨700, List.replicate 10001 0xaa⟩]⟩

theorem not_withinLimits_long : ¬ long.WithinLimits := by
  intro h
  have hscript : (List.replicate 10001 (0xaa : UInt8)).length ≤ 10000 :=
    h.scripts ⟨700, List.replicate 10001 0xaa⟩ List.mem_cons_self
  rw [List.length_replicate] at hscript
  omega

/-- Any record is put into an empty store. -/
theorem write_empty (r : CoinRecord) :
    ∃ s₁ s₂ s₃, (Session.ofTable Table.empty).start = .ok s₁ ∧ s₁.write (.putCoin r) = .ok s₂ ∧
      s₂.commit = .ok s₃ ∧ s₃.committed = Table.empty.putCoin r :=
  ⟨_, _, _, rfl, rfl, rfl, rfl⟩

end Deposit

/-- A spend that is refused and a change of the tip do not take the record away. -/
theorem Session.shows_deposit :
    (⟨Deposit.before, some Deposit.before⟩ : Session).write (.putCoin Deposit.record) =
        .ok ⟨Deposit.before, some Deposit.put⟩ ∧
      Undisturbed Deposit.record.txid ⟨Deposit.before, some Deposit.put⟩
        ⟨Deposit.before, some Deposit.later⟩ ∧
      (⟨Deposit.before, some Deposit.later⟩ : Session).commit = .ok ⟨Deposit.later, none⟩ ∧
        Deposit.later.Shows Deposit.record := by
  -- The slot is spent already, so spending it is refused.
  have hrefused : (Deposit.put.spendOutput Deposit.empty).1 ≠ .ok true := by decide +kernel
  have hlater : Undisturbed Deposit.record.txid ⟨Deposit.before, some Deposit.put⟩
      ⟨Deposit.before, some Deposit.later⟩ := by
    have hspend : (⟨Deposit.before, some Deposit.put⟩ : Session).spend Deposit.empty =
        .ok ((Deposit.put.spendOutput Deposit.empty).1,
          ⟨Deposit.before, some (Deposit.put.spendOutput Deposit.empty).2⟩) := rfl
    have htip : (⟨Deposit.before, some (Deposit.put.spendOutput Deposit.empty).2⟩ :
        Session).write (.putTip 41) = .ok ⟨Deposit.before, some Deposit.later⟩ := rfl
    have hother : ¬ (Write.putTip 41).Touches Deposit.record.txid := fun h => h
    exact .spend (fun _ => hrefused) hspend (.write hother htip (.refl _))
  have hlimits : Deposit.record.WithinLimits := by
    constructor
    · decide
    · intro output hout
      simp only [Deposit.record, List.mem_cons, Option.some.injEq, reduceCtorEq, false_or,
        List.not_mem_nil, or_false] at hout
      rcases hout with rfl | rfl
      · exact Nat.le_of_ble_eq_true rfl
      · exact Nat.le_of_ble_eq_true rfl
  have hput : (⟨Deposit.before, some Deposit.before⟩ : Session).write (.putCoin Deposit.record) =
      .ok ⟨Deposit.before, some Deposit.put⟩ := rfl
  refine ⟨hput, hlater, rfl, ?_⟩
  exact (shows_put _ _ _ _ Deposit.record ⟨_, List.mem_cons_self⟩ hput hlater rfl).1 hlimits

/-- A record with a script that is too long by one byte is put and committed, and all that is read
    of it is that some value is malformed. -/
theorem Session.put_long_script :
    (∃ output, some output ∈ Deposit.long.outputs) ∧
      ∃ s₁ s₂ s₃, (ofTable Table.empty).start = .ok s₁ ∧
        s₁.write (.putCoin Deposit.long) = .ok s₂ ∧ s₂.commit = .ok s₃ ∧
          s₃.committed.getCoin Deposit.long.txid ≠ .ok (some Deposit.long) ∧
            s₃.committed.source.coin Deposit.long.txid = .ok none ∧
              ∃ scan, s₃.committed.source.scan = .ok scan ∧
                scan.records = [] ∧ scan.malformed = 1 := by
  have hget : (Table.empty.putCoin Deposit.long).get? (CoinKey.encode Deposit.long.txid) =
      some Deposit.long.encode := by
    rw [Table.putCoin, Table.get?_insert, if_pos rfl]
  have hwithout : (Table.empty.putCoin Deposit.long).without Deposit.long.txid = Table.empty := by
    have hempty : ∀ key, Table.empty.erase key = Table.empty := fun _ => rfl
    rw [Table.without, Table.putCoin, Table.erase_insert, hempty]
  have hides := Table.hides_of_get? hget Deposit.not_withinLimits_long
  rcases hides.getCoin with ⟨e, he⟩
  rcases hides.scan with ⟨scan, hscan, hrecords, hmalformed⟩
  -- Without the record the store is empty, so nothing is left to be scanned.
  rw [hwithout] at hrecords hmalformed
  rcases Deposit.write_empty Deposit.long with ⟨s₁, s₂, s₃, hstart, hput, hcommit, hcommitted⟩
  refine ⟨⟨_, List.mem_cons_self⟩, s₁, s₂, s₃, hstart, hput, hcommit, ?_⟩
  rw [hcommitted]
  refine ⟨?_, hides.coin, ?_⟩
  · rw [he]
    intro hfound
    cases hfound
  · exact ⟨scan, hscan, hrecords, hmalformed⟩

end CoinCommit
