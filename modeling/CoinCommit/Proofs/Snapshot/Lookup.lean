import CoinCommit.Proofs.Ledger.Outputs
import CoinCommit.Proofs.Merkle.Completeness
import CoinCommit.Proofs.Snapshot.Strings

/-!
# Looking Leaves Up

A proof is asked for by a leaf, and a leaf does not say which output it belongs
to. Within one table this does no harm. Outputs with one leaf are outputs of one
transaction unless two strings collide, and the outputs of a transaction have
one height; so a window has all of them or none, and the leaf of an output is
found exactly if the window has the height of that output.

## Theorems

* `Snapshot.proveLeaf?_eq_some_iff`: What is answered for a leaf.
* `Snapshot.of_proveLeaf?`: What is found is a place of the leaf, and its path is
  accepted.
* `Snapshot.exists_proveLeaf?_iff`: Every leaf of a snapshot is found.
* `Snapshot.mem_taken_iff_holds`: The outputs taken are outputs that are held.
* `Snapshot.mem_leaves_iff`, `Snapshot.mem_leaves_of_coin_iff`: Which outputs of
  a table have their leaf in a snapshot.
-/

namespace CoinCommit

/-- The outputs of a transaction that are held have one height. -/
theorem Table.Holds.height_eq {t : Table} {u v : Utxo} (hu : t.Holds u) (hv : t.Holds v)
    (htxid : u.txid = v.txid) : u.height = v.height := by
  rcases hu with ⟨r, output, hget, _, hu⟩
  rcases hv with ⟨r', output', hget', _, hv⟩
  rw [htxid, hget'] at hget
  cases hget
  rw [hu, hv, CoinRecord.utxo, CoinRecord.utxo]

namespace Snapshot

section

variable {s : Snapshot} {leaf : Bytes32}

/-- What is answered for a leaf is its first place and the path from there. -/
theorem proveLeaf?_eq_some_iff {i : Nat} {path : Path} :
    s.proveLeaf? leaf = some (i, path) ↔
      s.leaves.indexOf? leaf = some i ∧ s.leaves.prove? i = some path := by
  rw [proveLeaf?]
  constructor
  · intro h
    rcases Option.bind_eq_some_iff.mp h with ⟨j, hindex, hrest⟩
    rcases Option.bind_eq_some_iff.mp hrest with ⟨path', hprove, hpair⟩
    cases hpair
    exact ⟨hindex, hprove⟩
  · rintro ⟨hindex, hprove⟩
    exact Option.bind_eq_some_iff.mpr ⟨i, hindex, Option.bind_eq_some_iff.mpr ⟨path, hprove, rfl⟩⟩

/-- The place that is found has the leaf, and the path from there is accepted for it. -/
theorem of_proveLeaf? {i : Nat} {path : Path} (h : s.proveLeaf? leaf = some (i, path)) :
    s.leaves.toList[i]? = some leaf ∧ path.verifies leaf s.root = true := by
  rcases proveLeaf?_eq_some_iff.mp h with ⟨hindex, hprove⟩
  rcases List.idxOf?_eq_some_iff.mp hindex with ⟨hlt, hleaf, _⟩
  rw [LeafList.prove?_eq_some hlt, Option.some.injEq] at hprove
  subst hprove
  -- The path of a place leads from its leaf to the root.
  refine ⟨List.getElem?_eq_some_iff.mpr ⟨hlt, hleaf⟩, LeafList.verifies_root_iff.mpr ?_⟩
  rw [Path.apply_ofLevel _ _ hlt, hleaf]

theorem exists_proveLeaf?_iff :
    (∃ found, s.proveLeaf? leaf = some found) ↔ leaf ∈ s.leaves.toList := by
  constructor
  · rintro ⟨⟨i, path⟩, hfound⟩
    exact List.mem_of_getElem? (of_proveLeaf? hfound).1
  · -- The place that is found is in the list, and so it has a path.
    intro hmem
    rcases Option.isSome_iff_exists.mp (List.isSome_idxOf?.mpr hmem) with ⟨i, hindex⟩
    rcases List.idxOf?_eq_some_iff.mp hindex with ⟨hlt, _⟩
    exact ⟨_, proveLeaf?_eq_some_iff.mpr ⟨hindex, LeafList.prove?_eq_some hlt⟩⟩

end

variable {t : Table} {w : Window} {u : Utxo}

/-- The outputs taken are those that are held, have a height in the window and hold something. -/
theorem mem_taken_iff_holds :
    u ∈ taken w t.scanCoins.records ↔
      t.Holds u ∧ w.contains u.height = true ∧ 0 < u.amount := by
  have hwithin : u ∈ outputsWithin w t.scanCoins.records ↔
      t.Holds u ∧ w.contains u.height = true := Table.mem_outputsAt_iff w.contains
  -- A height in the window is that of the output, which is taken from its record.
  rw [taken, List.mem_filter, hwithin, Utxo.isSpendable, decide_eq_true_eq, and_assoc]

theorem leaf_mem_of_mem_taken {scan : Scan} (h : u ∈ taken w scan.records) :
    Leaf.hash u.txid u.script u.amount ∈ (ofScan w scan).leaves.toList :=
  (perm_leaves w scan).mem_iff.mpr (List.mem_map_of_mem (List.mem_map_of_mem h))

/-- The leaf of an output that is held is in the snapshots over the windows with its height, and in
    no others unless two outputs of the table have strings that collide. -/
theorem mem_leaves_iff (hsep : Separated (leafStrings Window.all t.scanCoins.records))
    (hu : t.Holds u) (hpos : 0 < u.amount) :
    Leaf.hash u.txid u.script u.amount ∈ (ofScan w t.scanCoins).leaves.toList ↔
      w.contains u.height = true := by
  have hall : ∀ v, t.Holds v → 0 < v.amount →
      v.preimage ∈ leafStrings Window.all t.scanCoins.records := fun v hv hv0 =>
    List.mem_map_of_mem (mem_taken_iff_holds.mpr ⟨hv, Window.contains_all v.height, hv0⟩)
  constructor
  · intro hmem
    rcases exists_string_of_leaf hmem with ⟨string, hstring, hhash⟩
    rcases List.mem_map.mp hstring with ⟨v, hv, rfl⟩
    rcases mem_taken_iff_holds.mp hv with ⟨hv, hw, hv0⟩
    -- The output that has put the leaf there is of the same transaction.
    have hsame := hsep _ (hall u hu hpos) _ (hall v hv hv0) hhash
    rw [hu.height_eq hv (Leaf.preimage_injective hsame).1]
    exact hw
  · exact fun hw => leaf_mem_of_mem_taken (mem_taken_iff_holds.mpr ⟨hu, hw, hpos⟩)

/-- The same for an output that a look-up finds. -/
theorem mem_leaves_of_coin_iff (hsep : Separated (leafStrings Window.all t.scanCoins.records))
    {txid : Bytes32} {r : CoinRecord} {vout : UInt32} {output : Output}
    (hcoin : t.source.coin txid = .ok (some r)) (hout : r.output? vout = some output)
    (hpos : 0 < output.amount) :
    Leaf.hash txid output.script output.amount ∈ (ofScan w t.scanCoins).leaves.toList ↔
      w.contains r.height = true := by
  -- What the look-up finds holds the output.
  have hfound : t.unspentCoin? txid = some r := Except.ok.inj hcoin
  have hiff := mem_leaves_iff (w := w) hsep (Table.holds_utxo hfound hout) hpos
  rw [CoinRecord.utxo, (Table.of_unspentCoin? hfound).1] at hiff
  exact hiff

end Snapshot

end CoinCommit
