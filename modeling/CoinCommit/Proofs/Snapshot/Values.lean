import CoinCommit.Proofs.Snapshot.Collection
import Mathlib.Data.Finset.Card

/-!
# Outputs of One Value

A leaf is all that a snapshot keeps of an output. It stands for the value of the
output, which is its transaction, its script and its amount: outputs of one value
share a leaf, and others do not unless their strings collide. The number of an
output is no part of its value, so two outputs of a transaction may well share a
leaf. Outputs of different transactions may not, as the transaction is part of
the string.

For the snapshot as a whole this is a matter of counting. Values with different
strings have different leaves, or some of the strings collide; so there are as
many leaves as values exactly if no strings do.

## Main definitions

* `Utxo.value`: The transaction, the script and the amount of an output.
* `Snapshot.values`: The values of the outputs that have a leaf.

## Theorems

* `Utxo.preimage_eq_iff`: The string of an output says its value.
* `Utxo.leaf?_eq_iff`: Two outputs that share a leaf.
* `Snapshot.disjoint_leaves`: Records of different transactions share none.
* `Snapshot.card_leaves_eq_iff`: As many leaves as values.
* `Snapshot.shares_leaves_by_value`: All of this for the snapshot of a source.
-/

namespace CoinCommit

namespace Utxo

/-- The transaction, the script and the amount of an output. -/
def value (u : Utxo) : Bytes32 × Bytes × Int64 := (u.txid, u.script, u.amount)

variable {u v : Utxo}

theorem value_eq_iff :
    u.value = v.value ↔ u.txid = v.txid ∧ u.script = v.script ∧ u.amount = v.amount := by
  simp only [value, Prod.mk.injEq]

/-- The script stands between two fields of fixed width, so the string can be cut in one way. -/
theorem preimage_eq_iff : u.preimage = v.preimage ↔ u.value = v.value := by
  rw [value_eq_iff]
  constructor
  · exact Leaf.preimage_injective
  · rintro ⟨htxid, hscript, hamount⟩
    rw [preimage, preimage, htxid, hscript, hamount]

theorem leaf?_eq_some (hu : 0 < u.amount) : u.leaf? = some (sha3 u.preimage) := by
  have hspendable : u.isSpendable = true := decide_eq_true hu
  rw [leaf?_eq, if_pos hspendable]

/-- Outputs that hold something share a leaf if they have one value, or if different strings
    collide. -/
theorem leaf?_eq_iff (hu : 0 < u.amount) (hv : 0 < v.amount) :
    u.leaf? = v.leaf? ↔
      u.value = v.value ∨ u.preimage ≠ v.preimage ∧ sha3 u.preimage = sha3 v.preimage := by
  rw [leaf?_eq_some hu, leaf?_eq_some hv, Option.some.injEq, ← preimage_eq_iff]
  constructor
  · intro hhash
    -- One string has one value; two strings with one hash collide.
    by_cases hsame : u.preimage = v.preimage
    · exact Or.inl hsame
    · exact Or.inr ⟨hsame, hhash⟩
  · rintro (hsame | ⟨_, hhash⟩)
    · rw [hsame]
    · exact hhash

end Utxo

namespace CoinRecord

theorem txid_of_mem_utxos {r : CoinRecord} {u : Utxo} (h : u ∈ r.utxos) : u.txid = r.txid := by
  rcases List.mem_filterMap.mp h with ⟨⟨slot, i⟩, _, hslot⟩
  rcases Option.map_eq_some_iff.mp hslot with ⟨output, _, rfl⟩
  rfl

/-- A leaf of a record is that of an output that is live and holds something. -/
theorem mem_leaves_iff {r : CoinRecord} {leaf : Bytes32} :
    leaf ∈ r.leaves ↔ ∃ u ∈ r.utxos, 0 < u.amount ∧ leaf = sha3 u.preimage := by
  rw [← filterMap_leaf?_utxos, List.mem_filterMap]
  refine exists_congr fun u => and_congr_right fun _ => ?_
  rw [Utxo.leaf?_eq, Utxo.isSpendable]
  -- An output that holds nothing has no leaf.
  by_cases hpos : 0 < u.amount
  · rw [if_pos (decide_eq_true hpos), Option.some.injEq]
    exact ⟨fun he => ⟨hpos, he.symm⟩, fun he => he.2.symm⟩
  · rw [if_neg (by rw [decide_eq_true_eq]; exact hpos)]
    exact iff_of_false (Option.some_ne_none _).symm fun he => hpos he.1

end CoinRecord

namespace Snapshot

variable {w : Window}

/-- The values of the outputs that have a leaf, each as often as it occurs. -/
def values (w : Window) (records : List CoinRecord) : List (Bytes32 × Bytes × Int64) :=
  (taken w records).map Utxo.value

variable {records : List CoinRecord}

theorem mem_leaves_iff_taken {scan : Scan} {leaf : Bytes32} :
    leaf ∈ (ofScan w scan).leaves.toList ↔ ∃ u ∈ taken w scan.records, u.leaf? = some leaf := by
  rw [(perm_leaves w scan).mem_iff, leafStrings, List.map_map, List.mem_map]
  refine exists_congr fun u => and_congr_right fun hu => ?_
  rcases mem_taken_iff.mp hu with ⟨_, _, _, _, hpos⟩
  rw [Utxo.leaf?_eq_some hpos, Option.some.injEq, Function.comp_apply]

theorem preimage_mem_leafStrings {u : Utxo} (h : u ∈ taken w records) :
    u.preimage ∈ leafStrings w records := List.mem_map_of_mem h

/-- Records of different transactions share no leaf unless two strings collide. -/
theorem disjoint_leaves (hsep : Separated (leafStrings w records))
    (hdistinct : records.Pairwise fun r r' => r.txid ≠ r'.txid) :
    (records.filter fun r => w.contains r.height).Pairwise fun r r' =>
      r.leaves.Disjoint r'.leaves := by
  refine (hdistinct.filter _).imp_of_mem ?_
  intro r r' hr hr' hne leaf hleaf hleaf'
  rcases List.mem_filter.mp hr with ⟨hr, hw⟩
  rcases List.mem_filter.mp hr' with ⟨hr', hw'⟩
  rcases CoinRecord.mem_leaves_iff.mp hleaf with ⟨u, hu, hpos, rfl⟩
  rcases CoinRecord.mem_leaves_iff.mp hleaf' with ⟨v, hv, hpos', hhash⟩
  -- Both outputs are taken by the snapshot, so their strings are among those that do not collide.
  have hu' : u ∈ taken w records := mem_taken_iff.mpr ⟨r, hr, hw, hu, hpos⟩
  have hv' : v ∈ taken w records := mem_taken_iff.mpr ⟨r', hr', hw', hv, hpos'⟩
  -- The shared leaf is that of one string, and the string says its transaction.
  have hsame : u.preimage = v.preimage :=
    hsep _ (preimage_mem_leafStrings hu') _ (preimage_mem_leafStrings hv') hhash
  apply hne
  rw [← CoinRecord.txid_of_mem_utxos hu, ← CoinRecord.txid_of_mem_utxos hv]
  exact (Leaf.preimage_injective hsame).1

theorem toFinset_map {α β : Type} [DecidableEq α] [DecidableEq β] (f : α → β) (items : List α) :
    (items.map f).toFinset = items.toFinset.image f := by
  ext b
  simp only [List.mem_toFinset, List.mem_map, Finset.mem_image]

/-- There are as many strings as values. -/
theorem card_leafStrings (w : Window) (records : List CoinRecord) :
    (leafStrings w records).toFinset.card = (values w records).toFinset.card := by
  -- The string is a function of the value, and an injective one.
  have hstrings : leafStrings w records = (values w records).map fun value =>
      Leaf.preimage value.1 value.2.1 value.2.2 := by
    rw [values, List.map_map]
    rfl
  rw [hstrings, toFinset_map]
  refine Finset.card_image_of_injective _ fun value value' h => ?_
  rcases Leaf.preimage_injective h with ⟨htxid, hscript, hamount⟩
  exact Prod.ext htxid (Prod.ext hscript hamount)

/-- There are as many leaves as values if no strings collide, and only then. -/
theorem card_leaves_eq_iff (w : Window) (scan : Scan) :
    (ofScan w scan).leaves.toList.toFinset.card = (values w scan.records).toFinset.card ↔
      Separated (leafStrings w scan.records) := by
  rw [List.toFinset_eq_of_perm _ _ (perm_leaves w scan), toFinset_map, ← card_leafStrings,
    Finset.card_image_iff, List.coe_toFinset]
  -- Both sides say of the same strings that equal digests have equal strings.
  exact ⟨fun h a ha b hb he => h ha hb he, fun h a ha b hb he => h a ha b hb he⟩

/-- In the snapshot of a source over a window every output that is taken has its leaf. Two of them
    share a leaf if they have one transaction, script and amount, and else only if their strings
    collide. So if the records are of different transactions and no strings collide, records share
    no leaf with each other; and there are as many leaves as there are values among the outputs
    taken, unless strings collide. -/
theorem shares_leaves_by_value (source : Source) (w : Window) (scan : Scan)
    (hscan : source.scan = .ok scan) :
    ∃ s, collect source w = .ok s ∧
      (∀ leaf, leaf ∈ s.leaves.toList ↔ ∃ u ∈ taken w scan.records, u.leaf? = some leaf) ∧
      (∀ u ∈ taken w scan.records, ∀ v ∈ taken w scan.records,
        (u.leaf? = v.leaf? ↔ u.txid = v.txid ∧ u.script = v.script ∧ u.amount = v.amount) ∨
          u.preimage ≠ v.preimage ∧ sha3 u.preimage = sha3 v.preimage) ∧
      (Separated (leafStrings w scan.records) →
        (scan.records.Pairwise fun r r' => r.txid ≠ r'.txid) →
          (scan.records.filter fun r => w.contains r.height).Pairwise fun r r' =>
            r.leaves.Disjoint r'.leaves) ∧
      (s.leaves.toList.toFinset.card = (values w scan.records).toFinset.card ↔
        Separated (leafStrings w scan.records)) := by
  have hcollect : collect source w = .ok (ofScan w scan) := by
    rw [collect, hscan]
    rfl
  refine ⟨ofScan w scan, hcollect, fun leaf => ?_, fun u hu v hv => ?_, disjoint_leaves,
    card_leaves_eq_iff w scan⟩
  · exact mem_leaves_iff_taken
  · rcases mem_taken_iff.mp hu with ⟨_, _, _, _, hpos⟩
    rcases mem_taken_iff.mp hv with ⟨_, _, _, _, hpos'⟩
    rw [Utxo.leaf?_eq_iff hpos hpos', ← Utxo.value_eq_iff]
    -- If the two strings do not collide, the leaf tells the value.
    by_cases hcollision : u.preimage ≠ v.preimage ∧ sha3 u.preimage = sha3 v.preimage
    · exact Or.inr hcollision
    · exact Or.inl (or_iff_left hcollision)

end Snapshot

namespace OneScript

/-- Two outputs of one script and amount, with a spent slot between them. -/
def record (txid : UInt8) : CoinRecord :=
  ⟨.fill txid, 50, false, [some ⟨42, [0x76, 0xa9]⟩, none, some ⟨42, [0x76, 0xa9]⟩]⟩

/-- The same in two transactions. -/
def records : List CoinRecord := [record 1, record 2]

end OneScript

/-- Four outputs agree in script and amount. Those of one transaction share their leaf, and the two
    transactions share none. -/
theorem Snapshot.shares_leaves_of_one_script :
    ∃ s, collect ⟨.ok ⟨OneScript.records, 0⟩, fun _ => .ok none⟩ Window.all = .ok s ∧
      s.leaves.toList.toFinset.card = 2 ∧
        (OneScript.record 1).leaves.Disjoint (OneScript.record 2).leaves := by
  have hsep : Separated (leafStrings Window.all OneScript.records) := by decide +kernel
  have hdistinct : OneScript.records.Pairwise fun r r' => r.txid ≠ r'.txid := by decide
  have hvalues : (values Window.all OneScript.records).toFinset.card = 2 := by decide +kernel
  have hwithin : OneScript.records.filter (fun r => Window.all.contains r.height) =
      OneScript.records := rfl
  rcases shares_leaves_by_value ⟨.ok ⟨OneScript.records, 0⟩, fun _ => .ok none⟩ Window.all
    ⟨OneScript.records, 0⟩ rfl with ⟨s, hs, _, _, hdisjoint, hcount⟩
  have hrows := hdisjoint hsep hdistinct
  rw [hwithin] at hrows
  exact ⟨s, hs, (hcount.mpr hsep).trans hvalues,
    (List.pairwise_cons.mp hrows).1 _ (List.mem_singleton_self _)⟩

end CoinCommit
