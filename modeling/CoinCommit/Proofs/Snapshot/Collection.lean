import CoinCommit.Proofs.Ledger.Spend
import CoinCommit.Proofs.Snapshot.Strings

/-!
# What a Snapshot Collects

A snapshot is determined by what its scan yields: the records, in any order, and
the number of values that could not be read. `Accounts` says what is collected
without saying how, from the slots of the records alone. The leaves have to be
in order and to be those of the outputs that count, each as often as it occurs;
one list only is like that, so no two snapshots account for the same scan, and
the order in which the records are visited leaves no trace.

The records are visited one after another, and an output is counted when it is
seen. `Pass` is that reading: the state between two records is what would be
collected of the records visited so far.

## Main definitions

* `CoinRecord.liveOutputs`, `CoinRecord.leaves`: The outputs of a record that
  are not spent, and the leaves of those that hold something.
* `CoinRecord.countLive`: The number of outputs of some records that are not
  spent.
* `Snapshot.Accounts`: What the snapshot of a scan is.
* `Pass`: What has been gathered of the records visited so far.

## Theorems

* `Snapshot.Accounts.unique`: A scan has one snapshot at most.
* `Snapshot.Accounts.of_perm`: The order of the records does not matter.
* `Snapshot.collect_accounts`: Every scan that succeeds has its snapshot.
* `Pass.visit_upTo`, `Pass.finish_foldl_visit`: A snapshot is collected in one
  pass over the records.
-/

namespace CoinCommit

namespace CoinRecord

/-- The outputs that are not spent. -/
def liveOutputs (r : CoinRecord) : List Output := r.outputs.filterMap id

/-- The leaves of the outputs that are not spent and hold something. -/
def leaves (r : CoinRecord) : List Bytes32 :=
  (r.liveOutputs.filter fun output => 0 < output.amount).map fun output =>
    Leaf.hash r.txid output.script output.amount

/-- The number of outputs of some records that are not spent. -/
def countLive (records : List CoinRecord) : Nat := (records.flatMap liveOutputs).length

/-- What is read off the live outputs without looking at their numbers can be read off the slots. -/
theorem filterMap_utxos {β : Type} (r : CoinRecord) (f : Utxo → Option β) (g : Output → Option β)
    (h : ∀ vout output, f (r.utxo vout output) = g output) :
    r.utxos.filterMap f = r.liveOutputs.filterMap g := by
  have hslot : ∀ slot : Option Output × Nat,
      (slot.1.map fun output => r.utxo (UInt32.ofNat slot.2) output).bind f = slot.1.bind g := by
    intro slot
    rcases slot with ⟨_ | output, i⟩
    · rfl
    · exact h _ output
  calc r.utxos.filterMap f
      = r.outputs.zipIdx.filterMap fun slot => slot.1.bind g := by
        rw [utxos, List.filterMap_filterMap]
        exact List.filterMap_congr fun slot _ => hslot slot
    _ = (r.outputs.zipIdx.map Prod.fst).filterMap fun slot => slot.bind g := by
        rw [List.filterMap_map]
        rfl
    _ = r.outputs.filterMap fun slot => slot.bind g := by rw [List.zipIdx_map_fst]
    _ = r.liveOutputs.filterMap g := (List.filterMap_filterMap).symm

theorem filterMap_leaf?_utxos (r : CoinRecord) : r.utxos.filterMap Utxo.leaf? = r.leaves := by
  rw [filterMap_utxos r Utxo.leaf?
    (fun output => Leaf.ofPositive? r.txid output.script output.amount) fun _ _ => rfl, leaves]
  induction r.liveOutputs with
  | nil => rfl
  | cons output rest ih =>
      rw [List.filterMap_cons, List.filter_cons, Leaf.ofPositive?, ih]
      by_cases hpos : 0 < output.amount
      · rw [if_pos hpos, if_pos (decide_eq_true hpos), List.map_cons]
      · rw [if_neg hpos, if_neg (by simpa only [decide_eq_true_eq] using hpos)]

theorem length_utxos (r : CoinRecord) : r.utxos.length = r.liveOutputs.length := by
  have h := filterMap_utxos r (fun u => some (⟨u.amount, u.script⟩ : Output)) some fun _ _ => rfl
  rw [List.filterMap_some] at h
  rw [← h, List.filterMap_eq_map', List.length_map]

theorem length_flatMap_utxos (records : List CoinRecord) :
    (records.flatMap utxos).length = countLive records := by
  induction records with
  | nil => rfl
  | cons r rest ih =>
      unfold countLive at ih ⊢
      rw [List.flatMap_cons, List.flatMap_cons, List.length_append, List.length_append, ih,
        length_utxos]

theorem countLive_eq_of_perm {a b : List CoinRecord} (h : a.Perm b) : countLive a = countLive b :=
  (h.flatMap_right liveOutputs).length_eq

end CoinRecord

namespace Snapshot

/-- A snapshot is what a scan has to offer: the leaves of the records within the window, in order
    and each as often as it occurs, and the right counts. -/
structure Accounts (w : Window) (scan : Scan) (s : Snapshot) : Prop where
  window : s.window = w
  sorted : s.leaves.toList.Pairwise (· ≤ ·)
  leaves : s.leaves.toList.Perm
    ((scan.records.filter fun r => w.min ≤ r.height ∧ r.height ≤ w.max).flatMap CoinRecord.leaves)
  recordsScanned : s.tally.recordsScanned = scan.records.length
  outputsSeen : s.tally.outputsSeen =
    CoinRecord.countLive (scan.records.filter fun r => w.min ≤ r.height ∧ r.height ≤ w.max)
  outsideWindow : s.tally.outsideWindow =
    CoinRecord.countLive (scan.records.filter fun r => ¬(w.min ≤ r.height ∧ r.height ≤ w.max))
  seen_eq : s.tally.outputsSeen = s.tally.included + s.tally.unspendable
  included : s.tally.included = s.leaves.length
  malformedSkipped : s.tally.malformedSkipped = scan.malformed

namespace Accounts

variable {w : Window} {scan scan' : Scan} {s s' : Snapshot}

/-- The leaves have one order only, and the counts leave nothing open, as an output that is seen
    and not included is unspendable. -/
theorem unique (h : Accounts w scan s) (h' : Accounts w scan s') : s = s' := by
  -- Both lists are in order and hold the same leaves, each as often.
  have hleaves : s.leaves = s'.leaves := LeafList.eq_of_perm (h.leaves.trans h'.leaves.symm)
  have hseen := h.outputsSeen.trans h'.outputsSeen.symm
  have hincluded : s.tally.included = s'.tally.included := by
    rw [h.included, h'.included, hleaves]
  have hunspendable : s.tally.unspendable = s'.tally.unspendable := by
    have hs := h.seen_eq
    have hs' := h'.seen_eq
    omega
  have hscanned := h.recordsScanned.trans h'.recordsScanned.symm
  have houtside := h.outsideWindow.trans h'.outsideWindow.symm
  have hmalformed := h.malformedSkipped.trans h'.malformedSkipped.symm
  have hwindow := h.window.trans h'.window.symm
  rcases s with ⟨window, leaves, tally⟩
  rcases s' with ⟨window', leaves', tally'⟩
  rcases tally
  rcases tally'
  cases hwindow
  cases hleaves
  cases hscanned
  cases hseen
  cases houtside
  cases hunspendable
  cases hincluded
  cases hmalformed
  rfl

theorem of_perm (h : Accounts w scan s) (hrecords : scan.records.Perm scan'.records)
    (hmalformed : scan.malformed = scan'.malformed) : Accounts w scan' s where
  window := h.window
  sorted := h.sorted
  leaves := h.leaves.trans ((hrecords.filter _).flatMap_right _)
  recordsScanned := h.recordsScanned.trans hrecords.length_eq
  outputsSeen := h.outputsSeen.trans (CoinRecord.countLive_eq_of_perm (hrecords.filter _))
  outsideWindow := h.outsideWindow.trans (CoinRecord.countLive_eq_of_perm (hrecords.filter _))
  seen_eq := h.seen_eq
  included := h.included
  malformedSkipped := h.malformedSkipped.trans hmalformed

end Accounts

theorem ofScan_accounts (w : Window) (scan : Scan) : Accounts w scan (ofScan w scan) := by
  -- The two tests of a height are those of the bounds of the window.
  have hwithin : (fun r : CoinRecord => w.contains r.height) =
      fun r => decide (w.min ≤ r.height ∧ r.height ≤ w.max) := by
    funext r
    rw [Window.contains, Bool.decide_and]
  have hbeyond : (fun r : CoinRecord => !w.contains r.height) =
      fun r => decide (¬(w.min ≤ r.height ∧ r.height ≤ w.max)) := by
    funext r
    rw [Window.contains, decide_not, Bool.decide_and]
  have hleaves : (outputsWithin w scan.records).filterMap Utxo.leaf? =
      (scan.records.filter fun r => w.min ≤ r.height ∧ r.height ≤ w.max).flatMap
        CoinRecord.leaves := by
    rw [outputsWithin, List.filterMap_flatMap, hwithin]
    exact congrArg (List.flatMap · _) (funext CoinRecord.filterMap_leaf?_utxos)
  -- Of the outputs that are seen, those with a leaf are the spendable ones.
  have hspendable : ((outputsWithin w scan.records).filterMap Utxo.leaf?).length =
      (outputsWithin w scan.records).countP Utxo.isSpendable := by
    rw [filterMap_leaf?, List.length_map, List.length_map, List.countP_eq_length_filter]
  constructor
  case window => rfl
  case sorted => exact (ofScan w scan).leaves.sorted
  case leaves =>
    rw [← hleaves]
    exact LeafList.perm_ofList _
  case recordsScanned => rfl
  case outputsSeen =>
    rw [← hwithin]
    exact CoinRecord.length_flatMap_utxos _
  case outsideWindow =>
    rw [← hbeyond]
    exact CoinRecord.length_flatMap_utxos _
  case seen_eq =>
    -- What is seen and has no leaf is unspendable.
    change (outputsWithin w scan.records).length =
      ((outputsWithin w scan.records).filterMap Utxo.leaf?).length +
        (outputsWithin w scan.records).countP fun u => !u.isSpendable
    rw [hspendable, List.length_eq_countP_add_countP Utxo.isSpendable]
    simp only [Bool.not_eq_true, Bool.decide_eq_false]
  case included => exact (LeafList.perm_ofList _).length_eq.symm
  case malformedSkipped => rfl

/-- Every source whose scan succeeds has its snapshot over every window, and any other source whose
    scan visits the same records in any order has the same. -/
theorem collect_accounts (source : Source) (w : Window) (scan : Scan)
    (hscan : source.scan = .ok scan) :
    ∃ s, collect source w = .ok s ∧ Accounts w scan s ∧
      ∀ (source' : Source) (scan' : Scan), source'.scan = .ok scan' →
        scan.records.Perm scan'.records → scan.malformed = scan'.malformed →
          collect source' w = .ok s := by
  have hcollect : ∀ {source scan}, source.scan = .ok scan →
      collect source w = .ok (ofScan w scan) := by
    intro source scan hscan
    rw [collect, hscan]
    rfl
  refine ⟨ofScan w scan, hcollect hscan, ofScan_accounts w scan, ?_⟩
  -- Another source has another list of the same records.
  intro source' scan' hscan' hrecords hmalformed
  rw [hcollect hscan']
  exact congrArg Except.ok
    ((ofScan_accounts w scan').unique ((ofScan_accounts w scan).of_perm hrecords hmalformed))

end Snapshot

namespace Mixed

/-- A record with an output of each amount that is given, and a spent slot for each that is not. -/
def record (txid : UInt8) (height : UInt64) (amounts : List (Option Int64)) : CoinRecord :=
  ⟨Bytes32.fill txid, height, false, amounts.map fun amount =>
    amount.map fun amount => ⟨amount, [1, txid]⟩⟩

/-- Two equal outputs, a spent slot and amounts that are zero and negative; heights at both ends of
    the window below and next to them. -/
def records : List CoinRecord :=
  [record 1 50 [some 10, some 0, none, some 10, some (-3)], record 2 100 [some 7],
    record 3 101 [some 9, none], record 4 49 [some 8, some 0], record 5 75 []]

/-- The heights from 50 to 100. -/
def window : Window := ⟨50, 100, by decide⟩

end Mixed

/-- Three of the five live outputs within the window hold something. Visited the other way round, by
    a source without a look-up, the records give the same snapshot. -/
theorem Snapshot.collect_accounts_of_mixed :
    ∃ s, collect ⟨.ok ⟨Mixed.records, 2⟩, fun _ => .ok none⟩ Mixed.window = .ok s ∧
      Accounts Mixed.window ⟨Mixed.records, 2⟩ s ∧ s.tally = ⟨5, 5, 3, 2, 3, 2⟩ ∧
        s.leaves.toList.Perm [Leaf.hash (Bytes32.fill 1) [1, 1] 10,
          Leaf.hash (Bytes32.fill 1) [1, 1] 10, Leaf.hash (Bytes32.fill 2) [1, 2] 7] ∧
          collect ⟨.ok ⟨Mixed.records.reverse, 2⟩,
            fun _ => .error ⟨.store, "closed"⟩⟩ Mixed.window = .ok s := by
  rcases collect_accounts ⟨.ok ⟨Mixed.records, 2⟩, fun _ => .ok none⟩ Mixed.window
    ⟨Mixed.records, 2⟩ rfl with ⟨s, hs, haccounts, hother⟩
  have htally : (ofScan Mixed.window ⟨Mixed.records, 2⟩).tally = ⟨5, 5, 3, 2, 3, 2⟩ := by
    decide +kernel
  refine ⟨s, hs, haccounts, ?_, haccounts.leaves, ?_⟩
  · rw [haccounts.unique (ofScan_accounts _ _), htally]
  · exact hother _ ⟨Mixed.records.reverse, 2⟩ rfl (List.reverse_perm _).symm rfl

/-- What has been gathered of the records visited so far: the leaves as they were found, the number
    of records and the outputs by what became of them. -/
structure Pass where
  found : List Bytes32
  recordsScanned : Nat
  outputsSeen : Nat
  outsideWindow : Nat
  unspendable : Nat

namespace Pass

/-- Before the first record. -/
def start : Pass := ⟨[], 0, 0, 0, 0⟩

/-- An output is seen: it has a leaf, or is unspendable. -/
def see (p : Pass) (u : Utxo) : Pass :=
  match u.leaf? with
  | some leaf => { p with found := p.found ++ [leaf], outputsSeen := p.outputsSeen + 1 }
  | none => { p with outputsSeen := p.outputsSeen + 1, unspendable := p.unspendable + 1 }

/-- A record is visited: all its live outputs are seen, or none if it lies outside the window. -/
def visit (w : Window) (p : Pass) (r : CoinRecord) : Pass :=
  let p := { p with recordsScanned := p.recordsScanned + 1 }
  if w.contains r.height then r.utxos.foldl see p
  else { p with outsideWindow := p.outsideWindow + r.utxos.length }

/-- The snapshot after the last record. -/
def finish (w : Window) (malformed : Nat) (p : Pass) : Snapshot where
  window := w
  leaves := LeafList.ofList p.found
  tally := ⟨p.recordsScanned, p.outputsSeen, p.outsideWindow, p.unspendable, p.found.length,
    malformed⟩

/-- What has been gathered once some records are visited. -/
def upTo (w : Window) (visited : List CoinRecord) : Pass where
  found := (Snapshot.outputsWithin w visited).filterMap Utxo.leaf?
  recordsScanned := visited.length
  outputsSeen := (Snapshot.outputsWithin w visited).length
  outsideWindow := (Snapshot.outputsBeyond w visited).length
  unspendable := (Snapshot.outputsWithin w visited).countP fun u => !u.isSpendable

theorem foldl_see (p : Pass) (outputs : List Utxo) :
    outputs.foldl see p =
      { p with
        found := p.found ++ outputs.filterMap Utxo.leaf?
        outputsSeen := p.outputsSeen + outputs.length
        unspendable := p.unspendable + outputs.countP fun u => !u.isSpendable } := by
  induction outputs generalizing p with
  | nil => simp only [List.foldl_nil, List.filterMap_nil, List.append_nil, List.length_nil,
      List.countP_nil, Nat.add_zero]
  | cons u rest ih =>
      -- An output with a leaf adds it, and one without is counted as unspendable.
      rw [List.foldl_cons, ih, see, Utxo.leaf?_eq]
      by_cases hu : u.isSpendable = true
      · simp only [hu, if_true, List.filterMap_cons, Utxo.leaf?_eq, List.append_assoc,
          List.singleton_append, List.length_cons, List.countP_cons, Bool.not_true,
          Bool.false_eq_true, if_false, Nat.add_zero, Nat.add_assoc, Nat.add_comm 1]
      · simp only [hu, List.filterMap_cons, Utxo.leaf?_eq, Bool.false_eq_true, if_false,
          List.length_cons, List.countP_cons, Bool.not_false, if_true, Nat.add_assoc,
          Nat.add_comm 1]

/-- The visit of one more record leads from what is gathered of the records before it to what is
    gathered of all of them. -/
theorem visit_upTo (w : Window) (visited : List CoinRecord) (r : CoinRecord) :
    visit w (upTo w visited) r = upTo w (visited ++ [r]) := by
  -- Both counts of outputs grow at the end, by the live outputs of the record or by nothing.
  have hone : ∀ p : UInt64 → Bool,
      CoinRecord.outputsAt p [r] = if p r.height then r.utxos else [] := by
    intro p
    rw [CoinRecord.outputsAt_cons]
    exact List.append_nil _
  have hwithin : Snapshot.outputsWithin w (visited ++ [r]) =
      Snapshot.outputsWithin w visited ++ if w.contains r.height then r.utxos else [] := by
    rw [← hone w.contains]
    exact CoinRecord.outputsAt_append w.contains visited [r]
  have hbeyond : Snapshot.outputsBeyond w (visited ++ [r]) =
      Snapshot.outputsBeyond w visited ++ if !w.contains r.height then r.utxos else [] := by
    rw [← hone fun height => !w.contains height]
    exact CoinRecord.outputsAt_append (fun height => !w.contains height) visited [r]
  rw [visit, upTo, upTo, hwithin, hbeyond]
  by_cases hw : w.contains r.height = true
  · -- Its live outputs are seen, and nothing is added beyond the window.
    simp only [hw, if_true, foldl_see, Bool.not_true, Bool.false_eq_true, if_false,
      List.append_nil, List.filterMap_append, List.length_append, List.length_singleton,
      List.countP_append]
  · simp only [hw, Bool.false_eq_true, if_false, Bool.not_false, if_true, List.append_nil,
      List.length_append, List.length_singleton]

/-- One pass over the records, in the order of the scan, collects the snapshot. -/
theorem finish_foldl_visit (w : Window) (scan : Scan) :
    finish w scan.malformed (scan.records.foldl (visit w) start) = Snapshot.ofScan w scan := by
  have hall : scan.records.foldl (visit w) start = upTo w scan.records :=
    foldl_eq_of_step (visit_upTo w) scan.records
  rw [hall]
  rfl

end Pass

end CoinCommit
