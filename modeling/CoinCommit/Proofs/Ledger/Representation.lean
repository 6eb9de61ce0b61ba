import CoinCommit.Ledger.Batch
import CoinCommit.Proofs.Ledger.CoinMap

/-!
# Tables That Stand for Coins

A table stands for a map of coins if each coin lies under its key in the one
form it has, the tip lies under the key of the tip, and every record is one
that can be read back. What lies under other keys does not matter.

Everything that is read from such a table is what the map says. This is where
the limits on slots and scripts are needed: a record beyond them can be
written, but no one can read it, and a spend of its outputs fails. Each change
of the table is the change of the map, so a table that stands for a map goes on
to stand for one. A spend reads a record and writes another; it is the one
change whose result has to be shown to keep to the limits.

## Main definitions

* `Table.Represents`: A table that stands for a map of coins.
* `Table.Answers`: A table that answers every question as a map would.

## Theorems

* `Table.Represents.answers`: What is read is what the map says.
* `Table.Represents.putCoin`, `deleteCoin`, `putTip`: Writes.
* `Table.Represents.spendOutput`: A spend has the answer and the effect that it
  has on the map.
-/

namespace CoinCommit

theorem CoinKey.encode_injective {a b : Bytes32} (h : CoinKey.encode a = CoinKey.encode b) :
    a = b :=
  Bytes32.ext_bytes (List.cons.inj h).2

/-- The keys of coins differ behind their tag only, so they are in the order of the transactions. -/
theorem CoinKey.lt_of_encode_lt {a b : Bytes32} (h : CoinKey.encode a < CoinKey.encode b) :
    a < b := by
  rcases List.cons_lt_cons_iff.mp h with htag | ⟨_, hbytes⟩
  · exact absurd htag (UInt8.lt_irrefl _)
  · exact hbytes

theorem CoinKey.encode_ne_tipKey (txid : Bytes32) : CoinKey.encode txid ≠ Tip.key := by
  intro h
  cases (List.cons.inj h).1

theorem Tip.decode_encode (height : UInt64) : Tip.decode (Tip.encode height) = .ok height := by
  have hlen : (Tip.encode height).length = 8 := LittleEndian.length_encode 8 _
  rw [Tip.decode, if_pos hlen, Tip.encode, LittleEndian.toUInt64_ofUInt64]

namespace Table

/-- Each coin lies under its key, the tip under its own, and every record can be read back. -/
structure Represents (t : Table) (m : CoinMap) : Prop where
  coin : ∀ txid, t.get? (CoinKey.encode txid) = (m.record? txid).map CoinRecord.encode
  limits : ∀ txid r, m.record? txid = some r → r.WithinLimits
  tip : t.get? Tip.key = m.tip.map Tip.encode

/-- What is read from the table is what the map says. A scan finds the records that have a live
    output, each once and in the order of the transactions, and nothing that cannot be read. -/
structure Answers (t : Table) (m : CoinMap) : Prop where
  getCoin : ∀ txid, t.getCoin txid = .ok (m.record? txid)
  coin : ∀ txid, t.source.coin txid = .ok (m.unspent? txid)
  isUnspent : ∀ o, t.source.isUnspent o = .ok (m.isLive o)
  scan : ∃ records, t.source.scan = .ok ⟨records, 0⟩ ∧
    records.Pairwise (fun a b => a.txid < b.txid) ∧
      ∀ r, r ∈ records ↔ m.unspent? r.txid = some r
  tipHeight : t.tipHeight = .ok m.tip

-- The values under the keys of coins, told by look-ups.
theorem mem_storedCoins {t : Table} {x : Except CoinError CoinRecord} :
    x ∈ t.storedCoins ↔
      ∃ txid value, t.get? (CoinKey.encode txid) = some value ∧
        x = CoinRecord.decode txid value := by
  simp only [storedCoins, List.mem_filterMap, Option.map_eq_some_iff, CoinKey.decode?_eq_some_iff]
  constructor
  · rintro ⟨⟨key, value⟩, hmem, txid, rfl, rfl⟩
    exact ⟨txid, value, (get?_eq_some_iff t _ _).mpr hmem, rfl⟩
  · rintro ⟨txid, value, hget, rfl⟩
    exact ⟨(CoinKey.encode txid, value), (get?_eq_some_iff t _ _).mp hget, txid, rfl, rfl⟩

theorem live?_eq_some_iff {x : Except CoinError CoinRecord} {r : CoinRecord} :
    live? x = some r ↔ x = .ok r ∧ r.isPruned = false := by
  rcases x with e | r'
  · simp only [live?, reduceCtorEq, false_and]
  · by_cases hpruned : r'.isPruned = true
    · rw [live?, if_pos hpruned]
      constructor
      · intro h
        cases h
      · rintro ⟨⟨⟩, hlive⟩
        rw [hpruned] at hlive
        cases hlive
    · rw [live?, if_neg hpruned]
      constructor
      · rintro ⟨⟩
        exact ⟨rfl, by simpa only [Bool.not_eq_true] using hpruned⟩
      · rintro ⟨⟨⟩, _⟩
        rfl

/-- A scan visits the transactions in their order, as that is the order of their keys. -/
theorem ascending_records (t : Table) :
    t.scanCoins.records.Pairwise fun a b => a.txid < b.txid := by
  -- First of all values under coin keys, readable or not, and then of the ones that are visited.
  have hstored : t.storedCoins.Pairwise fun x y =>
      ∀ a b, x = .ok a → y = .ok b → a.txid < b.txid := by
    refine t.sorted.filterMap _ ?_
    intro e e' hbefore x hx y hy a b ha hb
    rcases Option.map_eq_some_iff.mp hx with ⟨txid, hkey, rfl⟩
    rcases Option.map_eq_some_iff.mp hy with ⟨txid', hkey', rfl⟩
    have hlt : CoinKey.encode txid < CoinKey.encode txid' := by
      rw [← CoinKey.decode?_eq_some_iff.mp hkey, ← CoinKey.decode?_eq_some_iff.mp hkey']
      exact hbefore
    -- A record that is read is of the transaction that its key names.
    rw [(CoinRecord.of_decode_eq_ok ha).1, (CoinRecord.of_decode_eq_ok hb).1]
    exact CoinKey.lt_of_encode_lt hlt
  refine hstored.filterMap _ ?_
  intro x y hlt a ha b hb
  exact hlt a b (live?_eq_some_iff.mp ha).1 (live?_eq_some_iff.mp hb).1

namespace Represents

variable {t : Table} {m : CoinMap}

theorem decode_of_record? (h : t.Represents m) {txid : Bytes32} {r : CoinRecord}
    (hr : m.record? txid = some r) : CoinRecord.decode txid r.encode = .ok r := by
  have htxid := m.txid_eq txid r hr
  have hdecode := CoinRecord.decode_encode (h.limits txid r hr)
  rw [htxid] at hdecode
  exact hdecode

theorem getCoin (h : t.Represents m) (txid : Bytes32) :
    t.getCoin txid = .ok (m.record? txid) := by
  rw [Table.getCoin, h.coin]
  -- A record of the map can be read back, so the look-up goes as it does on the map.
  rcases hr : m.record? txid with _ | r
  · rfl
  · simp only [Option.map_some, h.decode_of_record? hr]
    rfl

theorem unspentCoin? (h : t.Represents m) (txid : Bytes32) :
    t.unspentCoin? txid = m.unspent? txid := by
  rw [Table.unspentCoin?, h.coin, CoinMap.unspent?]
  rcases hr : m.record? txid with _ | r
  · rfl
  · simp only [Option.map_some, h.decode_of_record? hr]
    rfl

-- A pruned record has no output to be found, so it may be passed over.
theorem isUnspent (h : t.Represents m) (o : Outpoint) :
    t.source.isUnspent o = .ok (m.isLive o) := by
  have hcoin : t.source.coin o.txid = .ok (m.unspent? o.txid) :=
    congrArg Except.ok (h.unspentCoin? o.txid)
  rw [Source.isUnspent, hcoin, CoinMap.unspent?, CoinMap.isLive]
  rcases m.record? o.txid with _ | r
  · rfl
  · by_cases hpruned : r.isPruned = true
    · rcases hout : r.output? o.vout with _ | output
      · simp only [hpruned, if_true, hout]
        rfl
      · exact absurd hpruned (CoinRecord.not_isPruned_of_output? hout)
    · simp only [hpruned, Bool.false_eq_true, if_false]
      rfl

theorem tipHeight (h : t.Represents m) : t.tipHeight = .ok m.tip := by
  rw [Table.tipHeight, h.tip]
  rcases m.tip with _ | height
  · rfl
  · simp only [Option.map_some, Tip.decode_encode]
    rfl

theorem mem_storedCoins_iff (h : t.Represents m) {x : Except CoinError CoinRecord} :
    x ∈ t.storedCoins ↔ ∃ r, m.record? r.txid = some r ∧ x = .ok r := by
  rw [mem_storedCoins]
  constructor
  · rintro ⟨txid, value, hget, rfl⟩
    -- What lies under a coin key is the form of a record of the map, and it is read as that record.
    rw [h.coin] at hget
    rcases Option.map_eq_some_iff.mp hget with ⟨r, hr, rfl⟩
    refine ⟨r, ?_, h.decode_of_record? hr⟩
    rw [m.txid_eq txid r hr]
    exact hr
  · rintro ⟨r, hr, rfl⟩
    refine ⟨r.txid, r.encode, ?_, (h.decode_of_record? hr).symm⟩
    rw [h.coin, hr, Option.map_some]

theorem scan (h : t.Represents m) :
    ∃ records, t.source.scan = .ok ⟨records, 0⟩ ∧
      records.Pairwise (fun a b => a.txid < b.txid) ∧
        ∀ r, r ∈ records ↔ m.unspent? r.txid = some r := by
  -- What lies under the key of a coin was put there as a coin, so nothing is malformed.
  have hmalformed : t.storedCoins.countP isMalformed = 0 := by
    rw [List.countP_eq_zero]
    intro x hx
    rcases h.mem_storedCoins_iff.mp hx with ⟨r, _, rfl⟩
    exact Bool.false_ne_true
  refine ⟨t.scanCoins.records, ?_, ascending_records t, ?_⟩
  · rw [← hmalformed]
    rfl
  · -- Pruned records are passed over on both sides.
    intro r
    rw [scanCoins, List.mem_filterMap]
    simp only [live?_eq_some_iff, h.mem_storedCoins_iff, CoinMap.unspent?]
    constructor
    · rintro ⟨_, ⟨_, hr, rfl⟩, ⟨⟩, hlive⟩
      rw [hr]
      simp only [hlive, Bool.false_eq_true, if_false]
    · intro hunspent
      rcases hr : m.record? r.txid with _ | r'
      · rw [hr] at hunspent
        cases hunspent
      · rw [hr] at hunspent
        by_cases hpruned : r'.isPruned = true
        · simp only [hpruned, if_true, reduceCtorEq] at hunspent
        · simp only [hpruned, Bool.false_eq_true, if_false, Option.some.injEq] at hunspent
          subst hunspent
          exact ⟨_, ⟨r', hr, rfl⟩, rfl, by simpa only [Bool.not_eq_true] using hpruned⟩

theorem answers (h : t.Represents m) : t.Answers m where
  getCoin := h.getCoin
  coin txid := congrArg Except.ok (h.unspentCoin? txid)
  isUnspent := h.isUnspent
  scan := h.scan
  tipHeight := h.tipHeight

-- A change of one coin is followed under the keys of all coins and under that of the tip.
theorem putCoin (h : t.Represents m) {r : CoinRecord} (hlimits : r.WithinLimits) :
    (t.putCoin r).Represents (m.put r) where
  coin := by
    intro txid
    rw [Table.putCoin, get?_insert, CoinMap.record?_put, h.coin]
    -- The keys of two transactions are the same only if the transactions are.
    by_cases htxid : txid = r.txid
    · rw [if_pos htxid, if_pos (congrArg CoinKey.encode htxid), Option.map_some]
    · rw [if_neg htxid, if_neg fun hkey => htxid (CoinKey.encode_injective hkey)]
  limits := by
    intro txid r' hr
    rw [CoinMap.record?_put] at hr
    by_cases htxid : txid = r.txid
    · rw [if_pos htxid] at hr
      cases hr
      exact hlimits
    · rw [if_neg htxid] at hr
      exact h.limits txid r' hr
  tip := by
    rw [Table.putCoin, get?_insert, if_neg (CoinKey.encode_ne_tipKey r.txid).symm, h.tip]
    rfl

theorem deleteCoin (h : t.Represents m) (txid : Bytes32) :
    (t.erase (CoinKey.encode txid)).Represents (m.delete txid) where
  coin := by
    intro txid'
    rw [get?_erase, CoinMap.record?_delete, h.coin]
    by_cases htxid : txid' = txid
    · rw [if_pos htxid, if_pos (congrArg CoinKey.encode htxid), Option.map_none]
    · rw [if_neg htxid, if_neg fun hkey => htxid (CoinKey.encode_injective hkey)]
  limits := by
    intro txid' r hr
    rw [CoinMap.record?_delete] at hr
    by_cases htxid : txid' = txid
    · rw [if_pos htxid] at hr
      cases hr
    · rw [if_neg htxid] at hr
      exact h.limits txid' r hr
  tip := by
    rw [get?_erase, if_neg (CoinKey.encode_ne_tipKey txid).symm, h.tip]
    rfl

theorem putTip (h : t.Represents m) (height : UInt64) :
    (t.insert Tip.key (Tip.encode height)).Represents (m.setTip height) where
  coin := by
    intro txid
    rw [get?_insert, if_neg (CoinKey.encode_ne_tipKey txid), h.coin]
    rfl
  limits := h.limits
  tip := by
    rw [get?_insert, if_pos rfl]
    rfl

/-- A spend has the answer and the effect that it has on the map. It never fails, as every record
    can be read, and what it writes keeps to the limits, as a slot less is no longer. -/
theorem spendOutput (h : t.Represents m) (o : Outpoint) :
    (t.spendOutput o).1 = .ok (m.spend o).1 ∧ (t.spendOutput o).2.Represents (m.spend o).2 := by
  rw [Table.spendOutput, h.getCoin, CoinMap.spend]
  rcases hr : m.record? o.txid with _ | r
  · exact ⟨rfl, h⟩
  · have hlimits := (h.limits o.txid r hr).spent o.vout
    -- The slot is empty on both sides, and nothing changes.
    rcases hout : r.output? o.vout with _ | output
    · have hspend : r.spend? o.vout = none := by rw [CoinRecord.spend?, hout]
      simp only [hspend, hout, Option.isSome_none, Bool.false_eq_true, if_false, true_and]
      exact h
    · have hspend : r.spend? o.vout = some (r.spent o.vout) :=
        CoinRecord.spend?_eq_some_iff.mpr ⟨⟨output, hout⟩, rfl⟩
      simp only [hspend, hout, Option.isSome_some, if_true]
      -- A record without live outputs is deleted here as it is on the map.
      by_cases hpruned : (r.spent o.vout).isPruned = true
      · simp only [hpruned, if_true, true_and]
        exact h.deleteCoin o.txid
      · simp only [hpruned, Bool.false_eq_true, if_false, true_and]
        exact h.putCoin hlimits

end Represents

theorem represents_empty : empty.Represents CoinMap.empty where
  coin _ := rfl
  limits := by
    intro txid r hr
    cases hr
  tip := rfl

end Table

end CoinCommit
