import CoinCommit.Proofs.Ledger.Representation

/-!
# The Outputs of a Table

An output can be reached in two ways. A look-up finds the record of its
transaction and then its slot; a scan comes across it with all others. Both ways
lead to the same outputs, with the same data, whatever else the table holds:
what cannot be read and what is spent is met on neither way. `Holds` is the
first way, `mem_outputsAt_iff` says that the second is no other one.

A scan comes across the outputs in the order of their outpoints, and so across
no outpoint twice.

## Main definitions

* `Table.Holds`: A look-up finds the output.

## Theorems

* `Outpoint.before_iff`: What it means for outpoints to be in order.
* `CoinRecord.mem_utxos_iff`: The outputs of a record, by number.
* `Table.mem_records_iff`: The records of a scan, by transaction.
* `Table.mem_outputsAt_iff`: The outputs of a scan are those that are held.
* `Table.ascending_outputsAt`: They are in the order of their outpoints.
-/

namespace CoinCommit

/-- The strict order of outpoints: by transaction, then by number. -/
instance : LT Outpoint := ⟨fun a b => a.txid < b.txid ∨ a.txid = b.txid ∧ a.vout < b.vout⟩

theorem Outpoint.lt_irrefl (o : Outpoint) : ¬ o < o := by
  rintro (htxid | ⟨_, hvout⟩)
  · exact List.lt_irrefl o.txid.bytes htxid
  · exact UInt32.lt_irrefl o.vout hvout

theorem Outpoint.lt_trans {a b c : Outpoint} (hab : a < b) (hbc : b < c) : a < c := by
  rcases hab with hab | ⟨hab, hvab⟩
  · rcases hbc with hbc | ⟨hbc, _⟩
    · exact Or.inl (Bytes32.lt_trans hab hbc)
    · exact Or.inl (hbc ▸ hab)
  · rcases hbc with hbc | ⟨hbc, hvbc⟩
    · exact Or.inl (hab ▸ hbc)
    · exact Or.inr ⟨hab.trans hbc, UInt32.lt_trans hvab hvbc⟩

theorem Outpoint.before_iff {a b : Outpoint} : a.before b = true ↔ a < b ∨ a = b := by
  simp only [before, Bool.or_eq_true, Bool.and_eq_true, decide_eq_true_eq]
  constructor
  · rintro (htxid | ⟨htxid, hvout⟩)
    · exact Or.inl (Or.inl htxid)
    · rcases UInt32.lt_or_eq_of_le hvout with hlt | heq
      · exact Or.inl (Or.inr ⟨htxid, hlt⟩)
      · exact Or.inr (Outpoint.mk.injEq .. ▸ ⟨htxid, heq⟩)
  · rintro ((htxid | ⟨htxid, hvout⟩) | rfl)
    · exact Or.inl htxid
    · exact Or.inr ⟨htxid, UInt32.le_of_lt hvout⟩
    · exact Or.inr ⟨rfl, UInt32.le_refl _⟩

theorem Outpoint.before_trans {a b c : Outpoint} (hab : a.before b = true)
    (hbc : b.before c = true) : a.before c = true := by
  rcases before_iff.mp hab with hab | rfl
  · rcases before_iff.mp hbc with hbc | rfl
    · exact before_iff.mpr (Or.inl (lt_trans hab hbc))
    · exact before_iff.mpr (Or.inl hab)
  · exact hbc

theorem Outpoint.before_total (a b : Outpoint) : (a.before b || b.before a) = true := by
  simp only [before, Bool.or_eq_true, Bool.and_eq_true, decide_eq_true_eq]
  -- First by the transactions, then by the numbers.
  by_cases hlt : a.txid < b.txid
  · exact Or.inl (Or.inl hlt)
  by_cases heq : a.txid = b.txid
  · exact (UInt32.le_total a.vout b.vout).imp (fun h => Or.inr ⟨heq, h⟩)
      fun h => Or.inr ⟨heq.symm, h⟩
  · exact Or.inr (Or.inl (Bytes32.lt_of_not_lt_of_ne hlt heq))

theorem Outpoint.before_antisymm {a b : Outpoint} (hab : a.before b = true)
    (hba : b.before a = true) : a = b := by
  rcases before_iff.mp hab with hab | rfl
  · rcases before_iff.mp hba with hba | rfl
    · exact absurd (lt_trans hab hba) (lt_irrefl a)
    · rfl
  · rfl

namespace CoinRecord

variable {r : CoinRecord}

theorem output?_eq_some_iff {vout : UInt32} {output : Output} :
    r.output? vout = some output ↔ r.outputs[vout.toNat]? = some (some output) :=
  Option.join_eq_some_iff

/-- A record within the limits has fewer slots than there are numbers. -/
theorem WithinLimits.slots_lt (h : r.WithinLimits) : r.outputs.length < UInt32.size :=
  Nat.lt_of_le_of_lt h.slots (by decide)

/-- The live outputs are those that are found under their numbers. -/
theorem mem_utxos_iff (h : r.WithinLimits) {u : Utxo} :
    u ∈ r.utxos ↔ ∃ output, r.output? u.vout = some output ∧ u = r.utxo u.vout output := by
  rw [utxos, List.mem_filterMap]
  constructor
  · rintro ⟨⟨slot, i⟩, hslot, hu⟩
    rcases Option.map_eq_some_iff.mp hu with ⟨output, rfl, rfl⟩
    rw [List.mem_zipIdx_iff_getElem?] at hslot
    -- There are not so many slots that a number could stand for two of them.
    have hi : i < UInt32.size :=
      Nat.lt_trans (List.getElem?_eq_some_iff.mp hslot).1 h.slots_lt
    refine ⟨output, ?_, rfl⟩
    rw [output?_eq_some_iff, UInt32.toNat_ofNat_of_lt' hi]
    exact hslot
  · -- The number of the output is the place of its slot.
    rintro ⟨output, hout, hu⟩
    rw [output?_eq_some_iff] at hout
    refine ⟨(some output, u.vout.toNat), List.mem_zipIdx_iff_getElem?.mpr hout, ?_⟩
    rw [hu, Option.map_some, UInt32.ofNat_toNat, utxo]

/-- The live outputs are in the order of their numbers. -/
theorem ascending_utxos (h : r.WithinLimits) :
    r.utxos.Pairwise fun a b => a.outpoint < b.outpoint := by
  -- A later place has a larger number, which a word can hold.
  have hslots : r.outputs.zipIdx.Pairwise fun a b => a.2 < b.2 ∧ b.2 < UInt32.size := by
    rw [List.pairwise_iff_getElem]
    intro i j hi hj hij
    rw [List.length_zipIdx] at hi hj
    simp only [List.getElem_zipIdx, Nat.zero_add]
    exact ⟨hij, Nat.lt_trans hj h.slots_lt⟩
  refine hslots.filterMap _ ?_
  rintro ⟨slot, i⟩ ⟨slot', j⟩ ⟨hij, hj⟩ u hu v hv
  rcases Option.map_eq_some_iff.mp hu with ⟨output, _, rfl⟩
  rcases Option.map_eq_some_iff.mp hv with ⟨output', _, rfl⟩
  -- Neither place is so large that its number would start again at zero.
  refine Or.inr ⟨rfl, UInt32.lt_iff_toNat_lt.mpr ?_⟩
  simp only [Utxo.outpoint]
  rw [UInt32.toNat_ofNat_of_lt' hj, UInt32.toNat_ofNat_of_lt' (Nat.lt_trans hij hj)]
  exact hij

end CoinRecord

namespace Table

variable {t : Table} {txid : Bytes32} {r : CoinRecord}

theorem unspentCoin?_eq_some_iff :
    t.unspentCoin? txid = some r ↔ t.getCoin txid = .ok (some r) ∧ r.isPruned = false := by
  rw [unspentCoin?, getCoin]
  rcases t.get? (CoinKey.encode txid) with _ | value
  · -- Nothing is stored under the key of the transaction.
    simp only [reduceCtorEq, Except.ok.injEq, false_and]
  · rcases hdec : CoinRecord.decode txid value with e | r'
    · simp only [hdec, live?, Except.map, reduceCtorEq, false_and]
    · simp only [hdec, live?_eq_some_iff, Except.map, Except.ok.injEq, Option.some.injEq]

/-- A look-up finds the record of its transaction, and one that keeps to the limits. -/
theorem of_unspentCoin? (h : t.unspentCoin? txid = some r) :
    r.txid = txid ∧ r.WithinLimits :=
  (getCoin_eq_some (unspentCoin?_eq_some_iff.mp h).1).2

/-- The records of a scan are those that look-ups find. -/
theorem mem_records_iff : r ∈ t.scanCoins.records ↔ t.unspentCoin? r.txid = some r := by
  simp only [scanCoins, List.mem_filterMap, mem_storedCoins, live?_eq_some_iff, unspentCoin?]
  constructor
  · -- The transaction of a record is that of its key.
    rintro ⟨x, ⟨txid, value, hget, rfl⟩, hdec, hlive⟩
    rw [(CoinRecord.of_decode_eq_ok hdec).1, hget]
    exact live?_eq_some_iff.mpr ⟨hdec, hlive⟩
  · intro h
    rcases hget : t.get? (CoinKey.encode r.txid) with _ | value
    · rw [hget] at h
      cases h
    · rw [hget] at h
      exact ⟨_, ⟨r.txid, value, hget, rfl⟩, live?_eq_some_iff.mp h⟩

/-- The stored record of the transaction has the output in its slot, and it is not spent. -/
def Holds (t : Table) (u : Utxo) : Prop :=
  ∃ r output, t.getCoin u.txid = .ok (some r) ∧ r.output? u.vout = some output ∧
    u = r.utxo u.vout output

theorem holds_iff {u : Utxo} : t.Holds u ↔ ∃ r ∈ t.scanCoins.records, u ∈ r.utxos := by
  constructor
  · rintro ⟨r, output, hget, hout, hu⟩
    -- A slot with a live output keeps the record from being pruned.
    have hlive : r.isPruned = false := by
      simpa only [Bool.not_eq_true] using CoinRecord.not_isPruned_of_output? hout
    have hfound := unspentCoin?_eq_some_iff.mpr ⟨hget, hlive⟩
    rcases of_unspentCoin? hfound with ⟨htxid, hlimits⟩
    rw [← htxid] at hfound
    exact ⟨r, mem_records_iff.mpr hfound, (CoinRecord.mem_utxos_iff hlimits).mpr ⟨output, hout, hu⟩⟩
  · rintro ⟨r, hr, hu⟩
    have hfound := mem_records_iff.mp hr
    rcases (CoinRecord.mem_utxos_iff (of_unspentCoin? hfound).2).mp hu with ⟨output, hout, hu'⟩
    have htxid : u.txid = r.txid := congrArg Utxo.txid hu'
    refine ⟨r, output, ?_, hout, hu'⟩
    rw [htxid]
    exact (unspentCoin?_eq_some_iff.mp hfound).1

/-- A live output of a record that a look-up finds is held. -/
theorem holds_utxo (h : t.unspentCoin? txid = some r) {vout : UInt32} {output : Output}
    (hout : r.output? vout = some output) : t.Holds (r.utxo vout output) := by
  refine ⟨r, output, ?_, hout, rfl⟩
  rw [CoinRecord.utxo, (of_unspentCoin? h).1]
  exact (unspentCoin?_eq_some_iff.mp h).1

/-- The outputs that a scan comes across at some heights are those that are held. -/
theorem mem_outputsAt_iff (p : UInt64 → Bool) {u : Utxo} :
    u ∈ CoinRecord.outputsAt p t.scanCoins.records ↔ t.Holds u ∧ p u.height = true := by
  rw [CoinRecord.outputsAt_eq_filter, List.mem_filter, List.mem_flatMap, holds_iff]

/-- A scan comes across the outputs at some heights in the order of their outpoints. -/
theorem ascending_outputsAt (t : Table) (p : UInt64 → Bool) :
    (CoinRecord.outputsAt p t.scanCoins.records).Pairwise fun a b => a.outpoint < b.outpoint := by
  rw [CoinRecord.outputsAt, List.pairwise_flatMap]
  -- Every record that a scan comes across has been read, so it keeps to the limits.
  have hlimits : ∀ r ∈ t.scanCoins.records, r.WithinLimits := fun r hr =>
    (of_unspentCoin? (mem_records_iff.mp hr)).2
  have htxid : ∀ r ∈ t.scanCoins.records, ∀ u ∈ r.utxos, u.txid = r.txid := by
    intro r hr u hu
    rcases (CoinRecord.mem_utxos_iff (hlimits r hr)).mp hu with ⟨output, _, hu'⟩
    exact congrArg Utxo.txid hu'
  -- Within a record the numbers ascend, and from one record to the next the transactions.
  constructor
  · intro r hr
    exact CoinRecord.ascending_utxos (hlimits r (List.mem_of_mem_filter hr))
  · refine ((ascending_records t).filter _).imp_of_mem ?_
    intro a b ha hb hab u hu v hv
    refine Or.inl ?_
    simp only [Utxo.outpoint]
    rw [htxid a (List.mem_of_mem_filter ha) u hu, htxid b (List.mem_of_mem_filter hb) v hv]
    exact hab

end Table

end CoinCommit
