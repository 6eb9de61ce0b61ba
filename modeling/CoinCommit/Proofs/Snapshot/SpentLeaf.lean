import CoinCommit.Proofs.Ledger.SpendEffect
import CoinCommit.Proofs.Snapshot.Collection

/-!
# The Snapshot After a Spend

A spend that is answered with true takes one live output from the scan, and a
snapshot of the scan can tell where it is gone. If the height of its record
lies in the window, one output less is seen, and its leaf is gone if it had
one; else one output less lies outside. Another output with the same leaf keeps
it: an equal output of the same record has the same leaf, and only one of the
two is spent.

The other counts change by the record only. A record without live outputs is
not stored any more, and what could not be read before is still there.

## Main definitions

* `Snapshot.Loses`: A snapshot before and after an output is spent.

## Theorems

* `Session.spendOutput_of_steps`, `Session.exists_steps`: A batch with one
  spend.
* `Table.length_records_of_spend`: A scan has a record less if nothing remains
  of it.
* `Snapshot.perm_leaves_of_perm`: The leaves of a scan that has lost outputs.
* `Snapshot.spend_takes_leaf`: A snapshot loses what is spent, and nothing else.
-/

namespace CoinCommit

theorem Session.spendOutput_of_steps {s s₁ s₂ s₃ : Session} {o : Outpoint}
    {answer : Except CoinError Bool} (hstart : s.start = .ok s₁)
    (hspend : s₁.spend o = .ok (answer, s₂)) (hcommit : s₂.commit = .ok s₃) :
    s.committed.spendOutput o = (answer, s₃.committed) := by
  rw [start] at hstart
  split at hstart
  · cases hstart
  · cases hstart
    rw [spend] at hspend
    cases hspend
    rw [commit] at hcommit
    cases hcommit
    rfl

theorem Session.exists_steps {t : Table} {o : Outpoint} {answer : Except CoinError Bool}
    (h : (t.spendOutput o).1 = answer) :
    ∃ s₁ s₂, (ofTable t).start = .ok s₁ ∧ s₁.spend o = .ok (answer, s₂) ∧
      s₂.commit = .ok (ofTable (t.spendOutput o).2) := by
  refine ⟨⟨t, some t⟩, ⟨t, some (t.spendOutput o).2⟩, rfl, ?_, rfl⟩
  rw [← h]
  rfl

variable {t t' : Table} {o : Outpoint} {r : CoinRecord} {output : Output} {w : Window}

theorem Table.length_records_of_spend (h : t.spendOutput o = (.ok true, t'))
    (hget : t.getCoin o.txid = .ok (some r)) :
    t.scanCoins.records.length =
      t'.scanCoins.records.length + if (r.spent o.vout).isPruned then 1 else 0 := by
  rcases perm_records_of_spend h hget with ⟨rest, hbefore, hafter⟩
  rw [hbefore.length_eq, hafter.length_eq, live?]
  split
  · -- Nothing is left of the record, so it is not visited any more.
    rfl
  · rw [Option.toList_some, List.singleton_append, List.length_cons, List.length_cons, Nat.add_zero]

namespace Snapshot

/-- A snapshot before and after an output of a record is spent. One occurrence of its leaf is gone
    if it had one, one of the two counts of outputs goes down, and that of the records does if no
    other output of the record is live. -/
structure Loses (w : Window) (o : Outpoint) (r : CoinRecord) (output : Output)
    (before after : Snapshot) : Prop where
  leaf : (w.min ≤ r.height ∧ r.height ≤ w.max) ∧ 0 < output.amount → before.leaves.toList.Perm
    (Leaf.hash o.txid output.script output.amount :: after.leaves.toList)
  noLeaf : ¬((w.min ≤ r.height ∧ r.height ≤ w.max) ∧ 0 < output.amount) →
    after.leaves = before.leaves
  within : w.min ≤ r.height ∧ r.height ≤ w.max →
    before.tally.outputsSeen = after.tally.outputsSeen + 1 ∧
      after.tally.outsideWindow = before.tally.outsideWindow
  beyond : ¬(w.min ≤ r.height ∧ r.height ≤ w.max) →
    before.tally.outsideWindow = after.tally.outsideWindow + 1 ∧
      after.tally.outputsSeen = before.tally.outputsSeen
  record : r.OnlyLive o.vout → before.tally.recordsScanned = after.tally.recordsScanned + 1
  noRecord : ¬r.OnlyLive o.vout → after.tally.recordsScanned = before.tally.recordsScanned
  malformedSkipped : after.tally.malformedSkipped = before.tally.malformedSkipped

theorem collect_table (t : Table) (w : Window) :
    collect t.source w = .ok (ofScan w t.scanCoins) := rfl

/-- Outputs that are gone from the window take their leaves with them. -/
theorem perm_leaves_of_perm {a b : Scan} {lost : List Utxo}
    (h : (outputsWithin w a.records).Perm (lost ++ outputsWithin w b.records)) :
    (ofScan w a).leaves.toList.Perm (lost.filterMap Utxo.leaf? ++ (ofScan w b).leaves.toList) := by
  have hfound := h.filterMap Utxo.leaf?
  rw [List.filterMap_append] at hfound
  exact (LeafList.perm_ofList _).trans
    (hfound.trans ((LeafList.perm_ofList _).symm.append_left _))

theorem ofScan_loses (w : Window) (h : t.spendOutput o = (.ok true, t'))
    (hget : t.getCoin o.txid = .ok (some r)) (hout : r.output? o.vout = some output) :
    Loses w o r output (ofScan w t.scanCoins) (ofScan w t'.scanCoins) := by
  -- The same loss is seen from both sides of the bounds, and in one of them there is nothing lost.
  have hwithin : (outputsWithin w t.scanCoins.records).Perm
      ((if w.contains r.height then [r.utxo o.vout output] else []) ++
        outputsWithin w t'.scanCoins.records) :=
    Table.perm_outputs_of_spend h hget hout w.contains
  have hbeyond : (outputsBeyond w t.scanCoins.records).Perm
      ((if !w.contains r.height then [r.utxo o.vout output] else []) ++
        outputsBeyond w t'.scanCoins.records) :=
    Table.perm_outputs_of_spend h hget hout fun height => !w.contains height
  have hleaves := perm_leaves_of_perm hwithin
  have hleaf : (r.utxo o.vout output).leaf? =
      if 0 < output.amount then some (Leaf.hash o.txid output.script output.amount) else none := by
    rw [← (Table.getCoin_eq_some hget).2.1]
    rfl
  have hrecords := Table.length_records_of_spend h hget
  constructor
  case leaf =>
    -- The output has a leaf, which is the only one that is gone.
    rintro ⟨hw, hpos⟩
    rw [if_pos hpos] at hleaf
    rw [if_pos (Window.contains_iff.mpr hw), List.filterMap_cons_some hleaf] at hleaves
    exact hleaves
  case noLeaf =>
    intro hnot
    -- Outside the window the output was not seen, and inside it is unspendable.
    have hnone : (if w.contains r.height then [r.utxo o.vout output] else []).filterMap
        Utxo.leaf? = [] := by
      by_cases hw : w.contains r.height = true
      · rw [if_neg fun hpos => hnot ⟨Window.contains_iff.mp hw, hpos⟩] at hleaf
        rw [if_pos hw, List.filterMap_cons_none hleaf]
        rfl
      · rw [if_neg hw]
        rfl
    rw [hnone] at hleaves
    exact (LeafList.eq_of_perm hleaves).symm
  case within =>
    -- Seen before the spend and not after it; nothing is lost beyond the window.
    intro hw
    rw [Window.contains_iff.mpr hw] at hwithin hbeyond
    exact ⟨hwithin.length_eq, hbeyond.length_eq.symm⟩
  case beyond =>
    intro hw
    rw [Bool.eq_false_iff.mpr fun h => hw (Window.contains_iff.mp h)] at hwithin hbeyond
    exact ⟨hbeyond.length_eq, hwithin.length_eq.symm⟩
  case record =>
    intro honly
    -- No other output is live, so the record is gone from the scan.
    rw [if_pos (CoinRecord.isPruned_spent_iff.mpr honly)] at hrecords
    exact hrecords
  case noRecord =>
    intro hothers
    rw [if_neg fun h => hothers (CoinRecord.isPruned_spent_iff.mp h)] at hrecords
    exact hrecords.symm
  case malformedSkipped => exact Table.malformed_of_spend h hget

/-- A batch with one spend that is answered with true takes from every snapshot the output that is
    spent, and nothing else. -/
theorem spend_takes_leaf (w : Window) (s s₁ s₂ s₃ : Session) (o : Outpoint)
    (hstart : s.start = .ok s₁) (hspend : s₁.spend o = .ok (.ok true, s₂))
    (hcommit : s₂.commit = .ok s₃) :
    ∃ r output before after, s.committed.getCoin o.txid = .ok (some r) ∧
      r.output? o.vout = some output ∧ collect s.committed.source w = .ok before ∧
        collect s₃.committed.source w = .ok after ∧ Loses w o r output before after := by
  have hstep := Session.spendOutput_of_steps hstart hspend hcommit
  rcases Table.spendOutput_eq_true hstep with ⟨r, output, hget, hout, -⟩
  exact ⟨r, output, _, _, hget, hout, collect_table s.committed w, collect_table s₃.committed w,
    ofScan_loses w hstep hget hout⟩

end Snapshot

namespace Mixed

/-- A table with all records, and with a value that cannot be read. -/
def table : Table :=
  (records.foldl Table.putCoin Table.empty).insert (CoinKey.encode (Bytes32.fill 6)) []

/-- The record of them that has two equal outputs. -/
def twins : CoinRecord := record 1 50 [some 10, some 0, none, some 10, some (-3)]

/-- The first of the two. -/
def twin : Outpoint := ⟨Bytes32.fill 1, 0⟩

/-- The leaf of both. -/
def twinLeaf : Bytes32 := Leaf.hash (Bytes32.fill 1) [1, 1] 10

end Mixed

/-- The other one of two equal outputs keeps the leaf. -/
theorem Snapshot.spend_takes_leaf_once :
    ∃ s₁ s₂ s₃, (Session.ofTable Mixed.table).start = .ok s₁ ∧
      s₁.spend Mixed.twin = .ok (.ok true, s₂) ∧ s₂.commit = .ok s₃ ∧
        ∃ before after, collect Mixed.table.source Mixed.window = .ok before ∧
          collect s₃.committed.source Mixed.window = .ok after ∧
            before.leaves.toList.Perm (Mixed.twinLeaf :: after.leaves.toList) ∧
              Mixed.twinLeaf ∈ after.leaves.toList ∧
                before.tally.outputsSeen = after.tally.outputsSeen + 1 ∧
                  after.tally.recordsScanned = before.tally.recordsScanned := by
  have hanswer : (Mixed.table.spendOutput Mixed.twin).1 = .ok true := by decide +kernel
  have hget : Mixed.table.getCoin Mixed.twin.txid = .ok (some Mixed.twins) := by decide +kernel
  have hslot : Mixed.twins.output? Mixed.twin.vout = some ⟨10, [1, 1]⟩ := by decide
  have hrecords : Mixed.table.scanCoins.records = Mixed.records.take 4 := by decide +kernel
  have hleaves := (ofScan_accounts Mixed.window Mixed.table.scanCoins).leaves
  rw [hrecords] at hleaves
  have hthree : (ofScan Mixed.window Mixed.table.scanCoins).leaves.toList.Perm
      [Mixed.twinLeaf, Mixed.twinLeaf, Leaf.hash (Bytes32.fill 2) [1, 2] 7] := hleaves
  rcases Session.exists_steps hanswer with ⟨s₁, s₂, hstart, hspend, hcommit⟩
  rcases spend_takes_leaf Mixed.window _ s₁ s₂ _ Mixed.twin hstart hspend hcommit with
    ⟨r, output, before, after, hr, hout, hbefore, hafter, hloses⟩
  have hfound := Option.some.inj (Except.ok.inj (hget.symm.trans hr))
  subst hfound
  have houtput := Option.some.inj (hslot.symm.trans hout)
  subst houtput
  have hperm := hloses.leaf ⟨by decide, by decide⟩
  -- The record stays, as the fourth slot is live, too.
  have hothers : ¬Mixed.twins.OnlyLive Mixed.twin.vout := fun honly =>
    absurd (honly 3 ⟨10, [1, 1]⟩ rfl) (by decide)
  refine ⟨s₁, s₂, _, hstart, hspend, hcommit, before, after, hbefore, hafter, hperm, ?_,
    (hloses.within (by decide)).1, hloses.noRecord hothers⟩
  rw [collect_eq_ok rfl hbefore] at hperm
  exact ((hperm.symm.trans hthree).cons_inv).mem_iff.mpr (List.mem_cons_self ..)

end CoinCommit
