import CoinCommit.Ledger.Batch
import CoinCommit.Proofs.Ledger.Records

/-!
# What a Spend Does to a Scan

A spend that is answered with true has found the record of the transaction and
the output live in it. The slot of the output is emptied; the record is written
back, or taken away if it has no live output left. Either way a scan loses one
live output and no other, which is what `perm_outputs_of_spend` says. The two
cases meet there, because a record that is taken away has no outputs to miss.

## Main definitions

* `CoinRecord.spent`: A record with the slot of an output emptied.
* `CoinRecord.utxo`: An output of a record with what identifies it.
* `CoinRecord.outputsAt`: The live outputs of the records at some heights.

## Theorems

* `CoinRecord.outputsAt_eq_filter`: The same outputs, chosen one by one.
* `CoinRecord.perm_utxos`: The live outputs before and after a slot is emptied.
* `Table.spendOutput_eq_true`: What a spend has found and what it writes.
* `Table.perm_storedCoins_of_spend`: What is stored before and after it.
* `Table.perm_outputs_of_spend`: A scan loses the output that is spent.
-/

namespace CoinCommit

namespace CoinRecord

/-- The record with the slot of an output emptied. -/
def spent (r : CoinRecord) (vout : UInt32) : CoinRecord :=
  { r with outputs := r.outputs.set vout.toNat none }

/-- An output of the record with what identifies it. -/
def utxo (r : CoinRecord) (vout : UInt32) (output : Output) : Utxo :=
  ⟨r.txid, vout, output.script, output.amount, r.height⟩

/-- The live outputs of the records at some heights. -/
def outputsAt (p : UInt64 → Bool) (records : List CoinRecord) : List Utxo :=
  (records.filter fun r => p r.height).flatMap utxos

theorem outputsAt_cons (p : UInt64 → Bool) (r : CoinRecord) (records : List CoinRecord) :
    outputsAt p (r :: records) = (if p r.height then r.utxos else []) ++ outputsAt p records := by
  rw [outputsAt, List.filter_cons]
  split
  · rw [List.flatMap_cons, outputsAt]
  · rw [List.nil_append, outputsAt]

theorem outputsAt_append (p : UInt64 → Bool) (a b : List CoinRecord) :
    outputsAt p (a ++ b) = outputsAt p a ++ outputsAt p b := by
  rw [outputsAt, List.filter_append, List.flatMap_append, outputsAt, outputsAt]

theorem perm_outputsAt (p : UInt64 → Bool) {a b : List CoinRecord} (h : a.Perm b) :
    (outputsAt p a).Perm (outputsAt p b) :=
  (h.filter _).flatMap_right utxos

theorem height_of_mem_utxos {r : CoinRecord} {u : Utxo} (h : u ∈ r.utxos) :
    u.height = r.height := by
  rcases List.mem_filterMap.mp h with ⟨slot, _, hslot⟩
  rcases Option.map_eq_some_iff.mp hslot with ⟨output, _, rfl⟩
  rfl

/-- It makes no difference whether heights are tested for each record or for each output. -/
theorem outputsAt_eq_filter (p : UInt64 → Bool) (records : List CoinRecord) :
    outputsAt p records = (records.flatMap utxos).filter fun u => p u.height := by
  induction records with
  | nil => rfl
  | cons r records ih =>
      -- All outputs of a record have its height, so one test stands for all.
      have hrecord : (if p r.height then r.utxos else []) = r.utxos.filter fun u => p u.height := by
        rw [List.filter_congr fun u hu => congrArg p (height_of_mem_utxos hu)]
        cases p r.height with
        | true => rw [if_pos rfl, List.filter_true]
        | false => rw [if_neg Bool.false_ne_true, List.filter_false]
      rw [outputsAt_cons, hrecord, ih, List.flatMap_cons, List.filter_append]

theorem spend?_eq_some_iff {r r' : CoinRecord} {vout : UInt32} :
    r.spend? vout = some r' ↔ (∃ output, r.output? vout = some output) ∧ r' = r.spent vout := by
  rw [spend?]
  rcases hout : r.output? vout with _ | output
  · simp only [reduceCtorEq, exists_false, false_and]
  · simp only [Option.some.injEq, exists_eq', true_and]
    exact eq_comm

theorem WithinLimits.spent {r : CoinRecord} (h : r.WithinLimits) (vout : UInt32) :
    (r.spent vout).WithinLimits := by
  constructor
  · rw [CoinRecord.spent, List.length_set]
    exact h.slots
  · intro output hout
    rcases List.mem_or_eq_of_mem_set hout with hout | hout
    · exact h.scripts output hout
    · cases hout

theorem utxos_eq_nil_of_isPruned {r : CoinRecord} (h : r.isPruned = true) : r.utxos = [] := by
  rw [utxos, List.filterMap_eq_nil_iff]
  intro slot hslot
  -- Every slot of a pruned record is empty.
  have hmem : slot.1 ∈ r.outputs := by
    rcases slot with ⟨output, i⟩
    exact List.fst_mem_of_mem_zipIdx hslot
  rw [Option.isNone_iff_eq_none.mp (List.all_eq_true.mp h slot.1 hmem), Option.map_none]

theorem not_isPruned_of_output? {r : CoinRecord} {vout : UInt32} {output : Output}
    (h : r.output? vout = some output) : ¬ r.isPruned = true := by
  intro hpruned
  -- The slot that is asked for would be empty like all the others.
  rw [output?, Option.join_eq_some_iff] at h
  have hnone := List.all_eq_true.mp hpruned _ (List.mem_of_getElem? h)
  cases hnone

/-- Emptying the slot of a live output takes it from the live outputs and leaves the others. -/
theorem perm_utxos {r : CoinRecord} {vout : UInt32} {output : Output}
    (h : r.output? vout = some output) :
    r.utxos.Perm (r.utxo vout output :: (r.spent vout).utxos) := by
  have hslot : r.outputs[vout.toNat]? = some (some output) := by
    rw [output?] at h
    exact Option.join_eq_some_iff.mp h
  rcases List.getElem?_eq_some_iff.mp hslot with ⟨hlt, hget⟩
  -- The slots before and behind the one emptied keep their numbers.
  have hsplit : r.outputs =
      r.outputs.take vout.toNat ++ some output :: r.outputs.drop (vout.toNat + 1) := by
    rw [← hget, List.getElem_cons_drop, List.take_append_drop]
  have hset : r.outputs.set vout.toNat none =
      r.outputs.take vout.toNat ++ none :: r.outputs.drop (vout.toNat + 1) :=
    List.set_eq_take_append_cons_drop.trans (if_pos hlt)
  have hlen : (r.outputs.take vout.toNat).length = vout.toNat :=
    List.length_take_of_le (Nat.le_of_lt hlt)
  rw [utxos, utxos, spent, hset, utxo]
  nth_rewrite 1 [hsplit]
  simp only [List.zipIdx_append, List.zipIdx_cons, List.filterMap_append, List.filterMap_cons,
    Option.map_some, Option.map_none, hlen, Nat.zero_add, UInt32.ofNat_toNat]
  exact List.perm_middle

end CoinRecord

namespace Table

/-- A spend answered with true has found the output live, and has written back what is left of its
    record, if anything is. -/
theorem spendOutput_eq_true {t t' : Table} {o : Outpoint}
    (h : t.spendOutput o = (.ok true, t')) :
    ∃ r output, t.getCoin o.txid = .ok (some r) ∧ r.output? o.vout = some output ∧
      t' = if (r.spent o.vout).isPruned then t.erase (CoinKey.encode o.txid)
        else t.putCoin (r.spent o.vout) := by
  rw [spendOutput] at h
  split at h
  · cases h
  · cases h
  · -- Only with a record and a live slot in it is the answer true.
    rename_i r hget
    split at h
    · cases h
    · rename_i r' hspend
      rcases CoinRecord.spend?_eq_some_iff.mp hspend with ⟨⟨output, hout⟩, rfl⟩
      refine ⟨r, output, hget, hout, ?_⟩
      split at h
      · rename_i hpruned
        cases h
        rw [if_pos hpruned]
      · rename_i hlive
        cases h
        rw [if_neg hlive]

/-- Of the values under the keys of coins, one is read as the record that the spend has found. It is
    read as what is left of the record after it, or is gone. -/
theorem perm_storedCoins_of_spend {t t' : Table} {o : Outpoint} {r : CoinRecord}
    (h : t.spendOutput o = (.ok true, t')) (hget : t.getCoin o.txid = .ok (some r)) :
    ∃ rest, t.storedCoins.Perm (.ok r :: rest) ∧
      t'.storedCoins.Perm
        ((if (r.spent o.vout).isPruned then [] else [.ok (r.spent o.vout)]) ++ rest) := by
  rcases spendOutput_eq_true h with ⟨r', output, hget', hout, hafter⟩
  have hr : r' = r := by
    rw [hget] at hget'
    cases hget'
    rfl
  subst hr
  -- What was read is the form of the record, so it is one of the stored ones.
  rcases getCoin_eq_some hget with ⟨hvalue, htxid, hlimits⟩
  have hbefore := perm_storedCoins (perm_entries_of_get? t hvalue)
  rw [← htxid, CoinRecord.decode_encode hlimits] at hbefore
  refine ⟨_, hbefore, ?_⟩
  by_cases hpruned : (r'.spent o.vout).isPruned = true
  · rw [if_pos hpruned, ← htxid] at hafter
    rw [if_pos hpruned, hafter]
    exact List.Perm.refl _
  · -- The record stays, and its key holds what is left.
    rw [if_neg hpruned, putCoin] at hafter
    have hwritten := perm_storedCoins (perm_entries_insert t
      (CoinKey.encode (r'.spent o.vout).txid) (r'.spent o.vout).encode)
    rw [← hafter, CoinRecord.decode_encode (hlimits.spent o.vout)] at hwritten
    rw [if_neg hpruned]
    exact hwritten

/-- A scan loses the record that the spend has found, and gains what is left of it. -/
theorem perm_records_of_spend {t t' : Table} {o : Outpoint} {r : CoinRecord}
    (h : t.spendOutput o = (.ok true, t')) (hget : t.getCoin o.txid = .ok (some r)) :
    ∃ rest, t.scanCoins.records.Perm (r :: rest) ∧
      t'.scanCoins.records.Perm ((live? (.ok (r.spent o.vout))).toList ++ rest) := by
  rcases perm_storedCoins_of_spend h hget with ⟨rest, hbefore, hafter⟩
  rcases spendOutput_eq_true h with ⟨r', output, hget', hout, -⟩
  rw [hget] at hget'
  cases hget'
  -- A record with a live output is visited, and what is left of it only if it is not pruned.
  have hfound : live? (.ok r) = some r := if_neg (CoinRecord.not_isPruned_of_output? hout)
  have hleft : (if (r.spent o.vout).isPruned then [] else [.ok (r.spent o.vout)]).filterMap live? =
      (live? (.ok (r.spent o.vout))).toList := by
    by_cases hpruned : (r.spent o.vout).isPruned = true
    · have hgone : live? (.ok (r.spent o.vout)) = none := if_pos hpruned
      rw [if_pos hpruned, hgone]
      rfl
    · have hkept : live? (.ok (r.spent o.vout)) = some (r.spent o.vout) := if_neg hpruned
      rw [if_neg hpruned, List.filterMap_cons_some hkept, hkept]
      rfl
  have hrecords := hbefore.filterMap live?
  have hrecords' := hafter.filterMap live?
  rw [List.filterMap_cons_some hfound] at hrecords
  rw [List.filterMap_append, hleft] at hrecords'
  exact ⟨_, hrecords, hrecords'⟩

/-- A spend reads and writes records only, so there is nothing more or less that cannot be read. -/
theorem malformed_of_spend {t t' : Table} {o : Outpoint} {r : CoinRecord}
    (h : t.spendOutput o = (.ok true, t')) (hget : t.getCoin o.txid = .ok (some r)) :
    t'.scanCoins.malformed = t.scanCoins.malformed := by
  rcases perm_storedCoins_of_spend h hget with ⟨rest, hbefore, hafter⟩
  -- What is left is written in the form of a record, and so is never malformed.
  have hleft : (if (r.spent o.vout).isPruned then [] else [.ok (r.spent o.vout)]).countP
      isMalformed = 0 := by
    split <;> rfl
  calc t'.storedCoins.countP isMalformed
      = rest.countP isMalformed := by
        rw [hafter.countP_eq, List.countP_append, hleft, Nat.zero_add]
    _ = t.storedCoins.countP isMalformed := by
        rw [hbefore.countP_eq, List.countP_cons]
        rfl

/-- The live outputs at some heights lose the output that is spent if its record is among them, and
    lose nothing else. -/
theorem perm_outputs_of_spend {t t' : Table} {o : Outpoint} {r : CoinRecord} {output : Output}
    (h : t.spendOutput o = (.ok true, t')) (hget : t.getCoin o.txid = .ok (some r))
    (hout : r.output? o.vout = some output) (p : UInt64 → Bool) :
    (CoinRecord.outputsAt p t.scanCoins.records).Perm
      ((if p r.height then [r.utxo o.vout output] else []) ++
        CoinRecord.outputsAt p t'.scanCoins.records) := by
  rcases perm_records_of_spend h hget with ⟨rest, hbefore, hafter⟩
  have hbefore := CoinRecord.perm_outputsAt p hbefore
  have hafter := CoinRecord.perm_outputsAt p hafter
  -- What is left of the record has its outputs whether it is kept or not.
  have hleft : CoinRecord.outputsAt p (live? (.ok (r.spent o.vout))).toList =
      if p r.height then (r.spent o.vout).utxos else [] := by
    by_cases hpruned : (r.spent o.vout).isPruned = true
    · rw [live?, if_pos hpruned, CoinRecord.utxos_eq_nil_of_isPruned hpruned, ite_self]
      rfl
    · rw [live?, if_neg hpruned, Option.toList_some, CoinRecord.outputsAt_cons]
      exact List.append_nil _
  rw [CoinRecord.outputsAt_append, hleft] at hafter
  rw [CoinRecord.outputsAt_cons] at hbefore
  refine hbefore.trans (List.Perm.trans ?_ (hafter.symm.append_left _))
  -- The record is at one of the heights, and its live outputs lose one.
  by_cases hp : p r.height = true
  · rw [if_pos hp, if_pos hp, if_pos hp, ← List.append_assoc]
    exact (CoinRecord.perm_utxos hout).append_right _
  · rw [if_neg hp, if_neg hp, if_neg hp]
    exact List.Perm.refl _

end Table

end CoinCommit
