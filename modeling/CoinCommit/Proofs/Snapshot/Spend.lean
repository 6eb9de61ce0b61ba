import CoinCommit.Proofs.Merkle.Removal
import CoinCommit.Proofs.Snapshot.SpentLeaf
import CoinCommit.Wallet.Script

/-!
# The Root After a Spend

A batch with one spend takes one leaf from the snapshots over a window that has
the height of the record. The root then is another one, with two exceptions.
Outputs of one transaction may have the same value, and so the same leaf; if
the leaf that is spent stands at the end of a run of equal leaves that spells
out a self-pairing, the root stays what it was. And an output whose string is a
pair that holds its own hash could stand in for the leaf that is gone. There is
no reason to expect such an output, but nothing that is assumed of the hash
rules it out.

The first exception is real: `root_of_spent_twin` spends one of four outputs of
the same value.

## Theorems

* `Snapshot.perm_leaves_of_spend`: A snapshot loses the leaf that is spent.
* `Snapshot.root_of_spend`: Which spends change the root.
-/

namespace CoinCommit

namespace Snapshot

variable {t t' : Table} {o : Outpoint} {r : CoinRecord} {output : Output} {w : Window}

theorem perm_leaves_of_spend (h : t.spendOutput o = (.ok true, t'))
    (hget : t.getCoin o.txid = .ok (some r)) (hout : r.output? o.vout = some output)
    (hpos : 0 < output.amount) (hw : w.contains r.height = true) :
    (ofScan w t.scanCoins).leaves.toList.Perm
      (Leaf.hash o.txid output.script output.amount :: (ofScan w t'.scanCoins).leaves.toList) :=
  (ofScan_loses w h hget hout).leaf ⟨Window.contains_iff.mp hw, hpos⟩

/-- A leaf that is a pair of hashes is the leaf of an output with a script of 24 bytes, whose string
    is that pair. -/
theorem exists_output_of_pair {strings : List Bytes} (hsep : Separated strings) {s : Scan}
    (hstrings : leafStrings w s.records ⊆ strings) {y z : Bytes32}
    (hleaf : hashPair y z ∈ (ofScan w s).leaves.toList) (hpair : pairString y z ∈ strings) :
    ∃ u ∈ taken w s.records, u.script.length = 24 ∧ u.preimage = pairString y z := by
  rcases exists_string_of_leaf hleaf with ⟨string, hmem, hhash⟩
  rw [hashPair_eq] at hhash
  -- The two strings are among those told apart, so one digest makes them one string.
  have hsame : string = pairString y z :=
    (hsep _ hpair _ (hstrings hmem) hhash).symm
  rcases List.mem_map.mp hmem with ⟨u, hu, hpre⟩
  rw [hsame] at hpre
  refine ⟨u, hu, Utxo.length_script_of_length_preimage ?_, hpre⟩
  rw [hpre, length_pairString]

/-- A batch with one spend of a positive amount changes the root over every window that has the
    height of the record, unless the leaf is the last of a run that spells out a self-pairing, or
    the string of an output that is left is a pair that holds its own hash. In the first case the
    root does stay the same. -/
theorem root_of_spend (w : Window) (s s₁ s₂ s₃ : Session) (o : Outpoint) (r : CoinRecord)
    (output : Output) (hstart : s.start = .ok s₁) (hspend : s₁.spend o = .ok (.ok true, s₂))
    (hcommit : s₂.commit = .ok s₃) (hget : s.committed.getCoin o.txid = .ok (some r))
    (hout : r.output? o.vout = some output) (hpos : 0 < output.amount)
    (hw : w.contains r.height = true)
    (hsep : Separated (strings w s.committed.scanCoins ++ strings w s₃.committed.scanCoins)) :
    ∃ before after, collect s.committed.source w = .ok before ∧
      collect s₃.committed.source w = .ok after ∧
        (after.root = before.root →
          Merkle.RepeatsTail before.leaves.toList
            (Leaf.hash o.txid output.script output.amount) ∨
          ∃ u ∈ taken w s₃.committed.scanCoins.records, u.script.length = 24 ∧
            ∃ y z, u.preimage = pairString y z ∧ HoldsItself y z) ∧
        (Merkle.RepeatsTail before.leaves.toList
            (Leaf.hash o.txid output.script output.amount) →
          after.root = before.root) := by
  -- The spend takes one leaf out of the list and leaves the others.
  have hstep := Session.spendOutput_of_steps hstart hspend hcommit
  have hperm := perm_leaves_of_spend hstep hget hout hpos hw
  refine ⟨_, _, collect_table s.committed w, collect_table s₃.committed w, ?_, ?_⟩
  · intro hroot
    have hbefore : Merkle.foldStrings (ofScan w s.committed.scanCoins).leaves.toList ⊆
        strings w s.committed.scanCoins ++ strings w s₃.committed.scanCoins :=
      List.subset_append_of_subset_left _ (List.subset_append_right _ _)
    have hafter : Merkle.foldStrings (ofScan w s₃.committed.scanCoins).leaves.toList ⊆
        strings w s.committed.scanCoins ++ strings w s₃.committed.scanCoins :=
      List.subset_append_of_subset_right _ (List.subset_append_right _ _)
    -- Strings that do not collide leave two ways for a list to keep its root without a leaf.
    rcases LeafList.repeatsTail_of_root_eq hsep _ _ _ hperm hbefore hafter hroot.symm with
      htail | ⟨y, z, hleaf, hpair, hself⟩
    · exact Or.inl htail
    · -- The pair stands where the other leaves stand, so it is the leaf of an output that is left.
      have hleaves : leafStrings w s₃.committed.scanCoins.records ⊆
          strings w s.committed.scanCoins ++ strings w s₃.committed.scanCoins :=
        List.subset_append_of_subset_right _ (List.subset_append_left _ _)
      rcases exists_output_of_pair hsep hleaves hleaf hpair with ⟨u, hu, hlen, hpre⟩
      exact Or.inr ⟨u, hu, hlen, y, z, hpre, hself⟩
  · intro htail
    exact (LeafList.root_eq_of_repeatsTail _ _ _ hperm htail).symm

end Snapshot

namespace Siblings

/-- The script of all outputs here. -/
def script : Bytes := KeyScript.encode (Bytes32.fill 0x22)

/-- A record with one output of each amount. -/
def record (amounts : List Int64) : CoinRecord :=
  ⟨Bytes32.fill 0x44, 7, false, amounts.map fun amount => some ⟨amount, script⟩⟩

/-- The first of its outputs. -/
def first : Outpoint := ⟨Bytes32.fill 0x44, 0⟩

/-- A table with this record only. -/
def before (amounts : List Int64) : Table := Table.empty.putCoin (record amounts)

/-- The table after the first output is spent. -/
def after (amounts : List Int64) : Table := ((before amounts).spendOutput first).2

/-- The leaf of an output of the record. -/
def leaf (amount : Int64) : Bytes32 := Leaf.hash (Bytes32.fill 0x44) script amount

theorem steps {amounts : List Int64}
    (h : ((before amounts).spendOutput first).1 = .ok true) :
    ∃ s₁ s₂, (Session.ofTable (before amounts)).start = .ok s₁ ∧
      s₁.spend first = .ok (.ok true, s₂) ∧
        s₂.commit = .ok (Session.ofTable (after amounts)) :=
  Session.exists_steps h

theorem perm_leaves_of_amounts {t : Table} {amounts : List Int64}
    (h : Snapshot.leafStrings Window.all t.scanCoins.records =
      amounts.map (Leaf.preimage (Bytes32.fill 0x44) script)) :
    (Snapshot.ofScan Window.all t.scanCoins).leaves.toList.Perm (amounts.map leaf) := by
  have hperm := Snapshot.perm_leaves Window.all t.scanCoins
  rw [h, List.map_map] at hperm
  exact hperm

theorem leaves_of_equal_amounts {t : Table} {n : Nat} {amount : Int64}
    (h : Snapshot.leafStrings Window.all t.scanCoins.records =
      (List.replicate n amount).map (Leaf.preimage (Bytes32.fill 0x44) script)) :
    (Snapshot.ofScan Window.all t.scanCoins).leaves.toList = List.replicate n (leaf amount) := by
  have hperm := perm_leaves_of_amounts h
  rw [List.map_replicate] at hperm
  exact List.perm_replicate.mp hperm

end Siblings

/-- Spending one of two outputs of different value changes the root. -/
theorem Snapshot.root_of_spent_sibling :
    ((Siblings.before [5000, 6000]).spendOutput Siblings.first).1 = .ok true ∧
      ∃ before after, collect (Siblings.before [5000, 6000]).source Window.all = .ok before ∧
        collect (Siblings.after [5000, 6000]).source Window.all = .ok after ∧
          after.root ≠ before.root := by
  have hanswer : ((Siblings.before [5000, 6000]).spendOutput Siblings.first).1 = .ok true := by
    decide +kernel
  have hget : (Siblings.before [5000, 6000]).getCoin Siblings.first.txid =
      .ok (some (Siblings.record [5000, 6000])) := by
    decide +kernel
  have hbefore : leafStrings Window.all (Siblings.before [5000, 6000]).scanCoins.records =
      [5000, 6000].map (Leaf.preimage (Bytes32.fill 0x44) Siblings.script) := by
    decide +kernel
  have hafter : leafStrings Window.all (Siblings.after [5000, 6000]).scanCoins.records =
      [6000].map (Leaf.preimage (Bytes32.fill 0x44) Siblings.script) := by
    decide +kernel
  -- Two leaves before and one after. Their order has to be known for the hashes to be computed.
  have htwo : (ofScan Window.all (Siblings.before [5000, 6000]).scanCoins).leaves =
      ⟨[Siblings.leaf 5000, Siblings.leaf 6000], by decide +kernel⟩ :=
    LeafList.eq_of_perm (Siblings.perm_leaves_of_amounts hbefore)
  have hone : (ofScan Window.all (Siblings.after [5000, 6000]).scanCoins).leaves =
      ⟨[Siblings.leaf 6000], List.pairwise_singleton _ _⟩ :=
    LeafList.eq_of_perm (Siblings.perm_leaves_of_amounts hafter)
  have hsep : Separated (strings Window.all (Siblings.before [5000, 6000]).scanCoins ++
      strings Window.all (Siblings.after [5000, 6000]).scanCoins) := by
    rw [strings, strings, hbefore, hafter, htwo, hone]
    decide +kernel
  refine ⟨hanswer, ?_⟩
  rcases Siblings.steps hanswer with ⟨s₁, s₂, hstart, hspend, hcommit⟩
  rcases root_of_spend Window.all _ s₁ s₂ _ Siblings.first _ ⟨5000, Siblings.script⟩ hstart hspend
    hcommit hget (by decide +kernel) (by decide) (by decide) hsep with
    ⟨before, after, hb, ha, hroot, _⟩
  refine ⟨before, after, hb, ha, fun he => ?_⟩
  -- Two leaves are too few for a run that repeats, and a script of 33 bytes is none of 24.
  rcases hroot he with htail | ⟨u, hu, hlen, _⟩
  · have htwo : before.leaves.toList.length = 2 := by
      rw [collect_eq_ok rfl hb]
      exact (Siblings.perm_leaves_of_amounts hbefore).length_eq
    have hfour := htail.four_le_length
    omega
  · have hscripts : ∀ u ∈ taken Window.all (Siblings.after [5000, 6000]).scanCoins.records,
        u.script.length = 33 := by
      decide +kernel
    rw [hscripts u hu] at hlen
    cases hlen

/-- A spend need not change the root, although the strings that are hashed do not collide: here one
    of four outputs of the same value is spent, and the last of the three that are left takes the
    place of the fourth. -/
theorem root_of_spent_twin :
    (∃ s₁ s₂, (Session.ofTable (Siblings.before (List.replicate 4 5000))).start = .ok s₁ ∧
      s₁.spend Siblings.first = .ok (.ok true, s₂) ∧
        s₂.commit = .ok (Session.ofTable (Siblings.after (List.replicate 4 5000)))) ∧
    (∃ r output, (Siblings.before (List.replicate 4 5000)).getCoin Siblings.first.txid =
        .ok (some r) ∧
      r.output? Siblings.first.vout = some output ∧ 0 < output.amount ∧
        Window.all.contains r.height = true) ∧
    Separated (Snapshot.strings Window.all (Siblings.before (List.replicate 4 5000)).scanCoins ++
      Snapshot.strings Window.all (Siblings.after (List.replicate 4 5000)).scanCoins) ∧
    ∃ before after,
      Snapshot.collect (Siblings.before (List.replicate 4 5000)).source Window.all = .ok before ∧
        Snapshot.collect (Siblings.after (List.replicate 4 5000)).source Window.all = .ok after ∧
          after.root = before.root := by
  have hanswer : ((Siblings.before (List.replicate 4 5000)).spendOutput Siblings.first).1 =
      .ok true := by
    decide +kernel
  have hbefore : Snapshot.leafStrings Window.all
      (Siblings.before (List.replicate 4 5000)).scanCoins.records =
        (List.replicate 4 5000).map (Leaf.preimage (Bytes32.fill 0x44) Siblings.script) := by
    decide +kernel
  have hafter : Snapshot.leafStrings Window.all
      (Siblings.after (List.replicate 4 5000)).scanCoins.records =
        (List.replicate 3 5000).map (Leaf.preimage (Bytes32.fill 0x44) Siblings.script) := by
    decide +kernel
  -- Equal leaves have one order only.
  have hfour := Siblings.leaves_of_equal_amounts hbefore
  have hthree := Siblings.leaves_of_equal_amounts hafter
  have hsep : Separated (Snapshot.strings Window.all
        (Siblings.before (List.replicate 4 5000)).scanCoins ++
      Snapshot.strings Window.all (Siblings.after (List.replicate 4 5000)).scanCoins) := by
    rw [Snapshot.strings, Snapshot.strings, hbefore, hafter, hfour, hthree]
    decide +kernel
  -- Two leaves stand in front, and the other two spell out the pairing of one with itself.
  have hroot : (Snapshot.ofScan Window.all
        (Siblings.before (List.replicate 4 5000)).scanCoins).root =
      (Snapshot.ofScan Window.all (Siblings.after (List.replicate 4 5000)).scanCoins).root := by
    refine LeafList.root_eq_of_repeatsTail _ _ (Siblings.leaf 5000) ?_ ?_
    · rw [hfour, hthree]
      exact List.Perm.refl _
    · rw [hfour]
      exact ⟨0, List.replicate 2 (Siblings.leaf 5000), rfl, List.cons_ne_nil _ _, by decide⟩
  refine ⟨Siblings.steps hanswer, ⟨Siblings.record (List.replicate 4 5000), ⟨5000, Siblings.script⟩,
    ?_, ?_, by decide, by decide⟩, hsep, _, _, Snapshot.collect_table _ _,
    Snapshot.collect_table _ _, hroot.symm⟩
  · decide +kernel
  · decide +kernel

end CoinCommit
