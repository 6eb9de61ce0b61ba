import CoinCommit.Proofs.Ledger.Spend

/-!
# Coins Without Bytes

The chain state as it is thought of: a record for some of the transactions, and
the height of the tip. Nothing here is encoded, ordered or limited in size, so
a spend is what it says. It has an answer in one case only, that the output is
live, and then it takes that output away and no other. Records without live
outputs can be put but not spent from, and a spend leaves none behind.

What happens to an output is followed through the three changes of the coins by
`isLive_put`, `isLive_delete` and `isLive_spend`; all else about histories of
an output follows from these.

## Main definitions

* `CoinMap`: Records by transaction, and the tip.
* `CoinMap.put`, `CoinMap.delete`, `CoinMap.setTip`, `CoinMap.spend`: The
  changes.
* `CoinMap.isLive`: Whether an output can be spent.
* `CoinMap.unspent?`: The record of a transaction, if it has a live output.

## Theorems

* `CoinMap.fst_spend`: A spend is answered with whether the output is live.
* `CoinMap.isLive_spend`: The output spent is not live any more, and the others
  are what they were.
-/

namespace CoinCommit

theorem CoinRecord.output?_spent (r : CoinRecord) (spent vout : UInt32) :
    (r.spent spent).output? vout = if vout = spent then none else r.output? vout := by
  unfold output? CoinRecord.spent
  by_cases h : vout = spent
  · rw [if_pos h, h, List.getElem?_set_self']
    rcases r.outputs[spent.toNat]? with _ | slot
    · rfl
    · rfl
  · have hne : spent.toNat ≠ vout.toNat := fun he => h (UInt32.toNat_inj.mp he).symm
    rw [if_neg h, List.getElem?_set_ne hne]

/-- Records by transaction, each under its own, and the height of the tip. -/
structure CoinMap where
  record? : Bytes32 → Option CoinRecord
  tip : Option UInt64
  txid_eq : ∀ txid r, record? txid = some r → r.txid = txid

namespace CoinMap

/-- No coins and no tip. -/
def empty : CoinMap where
  record? _ := none
  tip := none
  txid_eq := by
    intro txid r h
    cases h

/-- The map with a record in place of the one that its transaction had. -/
def put (m : CoinMap) (r : CoinRecord) : CoinMap where
  record? txid := if txid = r.txid then some r else m.record? txid
  tip := m.tip
  txid_eq := by
    intro txid r' h
    by_cases htxid : txid = r.txid
    · rw [if_pos htxid] at h
      cases h
      exact htxid.symm
    · rw [if_neg htxid] at h
      exact m.txid_eq txid r' h

/-- The map without the record of a transaction. -/
def delete (m : CoinMap) (txid : Bytes32) : CoinMap where
  record? txid' := if txid' = txid then none else m.record? txid'
  tip := m.tip
  txid_eq := by
    intro txid' r h
    by_cases htxid : txid' = txid
    · rw [if_pos htxid] at h
      cases h
    · rw [if_neg htxid] at h
      exact m.txid_eq txid' r h

/-- The map with another tip. -/
def setTip (m : CoinMap) (height : UInt64) : CoinMap := { m with tip := some height }

/-- Whether the output is in the record of its transaction and not spent. -/
def isLive (m : CoinMap) (o : Outpoint) : Bool :=
  match m.record? o.txid with
  | some r => (r.output? o.vout).isSome
  | none => false

/-- The record of a transaction, if it has a live output. -/
def unspent? (m : CoinMap) (txid : Bytes32) : Option CoinRecord :=
  match m.record? txid with
  | some r => if r.isPruned then none else some r
  | none => none

/-- A spend with its answer. The slot of a live output is emptied, and a record that has no live
    output left is removed; if the output is not live, nothing changes. -/
def spend (m : CoinMap) (o : Outpoint) : Bool × CoinMap :=
  match m.record? o.txid with
  | some r =>
      if (r.output? o.vout).isSome then
        (true, if (r.spent o.vout).isPruned then m.delete o.txid else m.put (r.spent o.vout))
      else (false, m)
  | none => (false, m)

theorem record?_put (m : CoinMap) (r : CoinRecord) (txid : Bytes32) :
    (m.put r).record? txid = if txid = r.txid then some r else m.record? txid := rfl

theorem record?_delete (m : CoinMap) (txid txid' : Bytes32) :
    (m.delete txid).record? txid' = if txid' = txid then none else m.record? txid' := rfl

theorem fst_spend (m : CoinMap) (o : Outpoint) : (m.spend o).1 = m.isLive o := by
  unfold spend isLive
  rcases m.record? o.txid with _ | r
  · rfl
  · -- A spend is answered with true exactly if the slot is live.
    by_cases hlive : (r.output? o.vout).isSome = true
    · simp only [hlive, if_true]
    · simp only [hlive, Bool.false_eq_true, if_false]

theorem isLive_put (m : CoinMap) (r : CoinRecord) (o : Outpoint) :
    (m.put r).isLive o = if o.txid = r.txid then (r.output? o.vout).isSome else m.isLive o := by
  unfold isLive
  rw [record?_put]
  by_cases h : o.txid = r.txid
  · simp only [h, if_true]
  · simp only [h, if_false]

theorem isLive_delete (m : CoinMap) (txid : Bytes32) (o : Outpoint) :
    (m.delete txid).isLive o = if o.txid = txid then false else m.isLive o := by
  unfold isLive
  rw [record?_delete]
  by_cases h : o.txid = txid
  · simp only [h, if_true]
  · simp only [h, if_false]

theorem isLive_of_record? {m : CoinMap} {o : Outpoint} {r : CoinRecord}
    (h : m.record? o.txid = some r) : m.isLive o = (r.output? o.vout).isSome := by
  unfold isLive
  rw [h]

-- A pruned record is as good as none, so it makes no difference to outputs that it is not kept.
theorem isLive_kept (m : CoinMap) (r : CoinRecord) (o : Outpoint) :
    (if r.isPruned then m.delete r.txid else m.put r).isLive o =
      if o.txid = r.txid then (r.output? o.vout).isSome else m.isLive o := by
  by_cases hpruned : r.isPruned = true
  · rw [if_pos hpruned, isLive_delete]
    -- The record that is not kept has no live output to ask for.
    rcases hout : r.output? o.vout with _ | output
    · rfl
    · exact absurd hpruned (CoinRecord.not_isPruned_of_output? hout)
  · rw [if_neg hpruned, isLive_put]

/-- A spend takes away one output at most, the one that is spent. -/
theorem isLive_spend (m : CoinMap) (o o' : Outpoint) :
    (m.spend o).2.isLive o' = if o' = o then false else m.isLive o' := by
  -- An output that is not live cannot become less so.
  have hsame : m.isLive o = false → m.isLive o' = if o' = o then false else m.isLive o' := by
    intro hdead
    by_cases h : o' = o
    · rw [if_pos h, h, hdead]
    · rw [if_neg h]
  unfold spend
  rcases hr : m.record? o.txid with _ | r
  · refine hsame ?_
    unfold isLive
    rw [hr]
  · by_cases hlive : (r.output? o.vout).isSome = true
    · have htxid : (r.spent o.vout).txid = o.txid := m.txid_eq o.txid r hr
      have hkept := isLive_kept m (r.spent o.vout) o'
      -- Only slots of the same record can have changed.
      rw [htxid] at hkept
      simp only [hlive, if_true]
      rw [hkept, CoinRecord.output?_spent]
      by_cases hsibling : o'.txid = o.txid
      · rw [if_pos hsibling]
        by_cases hvout : o'.vout = o.vout
        · have h : o' = o := by
            rcases o with ⟨txid, vout⟩
            rcases o' with ⟨txid', vout'⟩
            -- Same transaction and same number, so the same output.
            cases hsibling
            cases hvout
            rfl
          rw [if_pos hvout, if_pos h]
          rfl
        · have h : o' ≠ o := fun he => hvout (congrArg Outpoint.vout he)
          rw [if_neg hvout, if_neg h, isLive_of_record? (by rw [hsibling]; exact hr)]
      · have h : o' ≠ o := fun he => hsibling (congrArg Outpoint.txid he)
        rw [if_neg hsibling, if_neg h]
    · simp only [hlive, Bool.false_eq_true, if_false]
      refine hsame ?_
      rw [isLive_of_record? hr]
      simpa only [Bool.not_eq_true] using hlive

-- Only a record of the same transaction brings back an output that is not live.
theorem not_isLive_put {m : CoinMap} {o : Outpoint} (h : m.isLive o = false) {r : CoinRecord}
    (hne : r.txid ≠ o.txid) : (m.put r).isLive o = false := by
  rw [isLive_put, if_neg hne.symm, h]

theorem not_isLive_delete {m : CoinMap} {o : Outpoint} (h : m.isLive o = false)
    (txid : Bytes32) : (m.delete txid).isLive o = false := by
  rw [isLive_delete, h, ite_self]

theorem not_isLive_spend {m : CoinMap} {o : Outpoint} (h : m.isLive o = false)
    (o' : Outpoint) : (m.spend o').2.isLive o = false := by
  rw [isLive_spend, h, ite_self]

end CoinMap

end CoinCommit
