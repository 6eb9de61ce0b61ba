import CoinCommit.Proofs.Merkle.Strings
import CoinCommit.Snapshot.Collect

/-!
# The Strings of a Snapshot

A snapshot hashes one string for each output that it takes, and then the
strings of the fold of its leaves. The leaves are sorted, so they are related
to the outputs as a rearrangement only; `perm_leaves` is what everything about
the leaves of a scan goes through.

## Main definitions

* `Utxo.preimage`: The string whose hash is the leaf of an output.
* `Snapshot.taken`: The outputs that have a leaf in a snapshot.
* `Snapshot.leafStrings`, `Snapshot.strings`: The strings that are hashed for
  the leaves, and for the root.

## Theorems

* `Leaf.preimage_injective`: Outputs of different value have different strings.
* `Snapshot.perm_leaves`: The leaves are the hashes of the outputs taken.
* `Snapshot.mem_taken_iff`: Which outputs are taken.
-/

namespace CoinCommit

theorem LittleEndian.ofInt64_injective {m n : Int64}
    (h : LittleEndian.ofInt64 m = LittleEndian.ofInt64 n) : m = n := by
  rw [← LittleEndian.toInt64_ofInt64 m, h, LittleEndian.toInt64_ofInt64]

namespace Leaf

theorem length_preimage (txid : Bytes32) (script : Bytes) (amount : Int64) :
    (preimage txid script amount).length = script.length + 40 := by
  have hamount : (LittleEndian.ofInt64 amount).length = 8 := LittleEndian.length_encode 8 _
  simp only [preimage, List.length_append, txid.length_eq, hamount]
  omega

/-- The widths of the transaction and of the amount are fixed, so the string can be cut in one way
    only, however long the script is. -/
theorem preimage_injective {txid txid' : Bytes32} {script script' : Bytes} {amount amount' : Int64}
    (h : preimage txid script amount = preimage txid' script' amount') :
    txid = txid' ∧ script = script' ∧ amount = amount' := by
  -- The strings are equally long, so the scripts are.
  have hlen : script.length + 40 = script'.length + 40 := by
    rw [← length_preimage txid script amount, h, length_preimage]
  have hfirst : (txid.bytes ++ script).length = (txid'.bytes ++ script').length := by
    rw [List.length_append, List.length_append, txid.length_eq, txid'.length_eq]
    omega
  have htxid : txid.bytes.length = txid'.bytes.length := by rw [txid.length_eq, txid'.length_eq]
  -- First the amount is cut off behind, then the transaction in front.
  have houter := List.append_inj h hfirst
  have hinner := List.append_inj houter.1 htxid
  exact ⟨Bytes32.ext_bytes hinner.1, hinner.2, LittleEndian.ofInt64_injective houter.2⟩

end Leaf

/-- The string whose hash is the leaf of an output. -/
def Utxo.preimage (u : Utxo) : Bytes := Leaf.preimage u.txid u.script u.amount

theorem Utxo.leaf?_eq (u : Utxo) :
    u.leaf? = if u.isSpendable then some (sha3 u.preimage) else none := by
  simp only [Utxo.leaf?, Leaf.ofPositive?, Utxo.isSpendable, decide_eq_true_eq, Leaf.hash,
    Utxo.preimage]

/-- An output's string is as long as a pair of hashes if its script has 24 bytes. -/
theorem Utxo.length_script_of_length_preimage {u : Utxo} (h : u.preimage.length = 64) :
    u.script.length = 24 := by
  rw [Utxo.preimage, Leaf.length_preimage] at h
  omega

namespace Snapshot

/-- The outputs that have a leaf: live, of a positive amount, in a record within the window. -/
def taken (w : Window) (records : List CoinRecord) : List Utxo :=
  (outputsWithin w records).filter Utxo.isSpendable

/-- The strings that are hashed for the leaves. -/
def leafStrings (w : Window) (records : List CoinRecord) : List Bytes :=
  (taken w records).map Utxo.preimage

/-- The strings that are hashed for the root, those of the leaves first. -/
def strings (w : Window) (s : Scan) : List Bytes :=
  leafStrings w s.records ++ Merkle.foldStrings (ofScan w s).leaves.toList

theorem mem_taken_iff {w : Window} {records : List CoinRecord} {u : Utxo} :
    u ∈ taken w records ↔
      ∃ r ∈ records, w.contains r.height = true ∧ u ∈ r.utxos ∧ 0 < u.amount := by
  simp only [taken, outputsWithin, List.mem_filter, List.mem_flatMap, Utxo.isSpendable,
    decide_eq_true_eq]
  constructor
  · intro h
    rcases h with ⟨⟨r, ⟨hr, hw⟩, hu⟩, hpos⟩
    exact ⟨r, hr, hw, hu, hpos⟩
  · intro h
    rcases h with ⟨r, hr, hw, hu, hpos⟩
    exact ⟨⟨r, ⟨hr, hw⟩, hu⟩, hpos⟩

theorem filterMap_leaf? (outputs : List Utxo) :
    outputs.filterMap Utxo.leaf? =
      ((outputs.filter Utxo.isSpendable).map Utxo.preimage).map sha3 := by
  induction outputs with
  | nil => rfl
  | cons u rest ih =>
      cases hu : u.isSpendable with
      | true =>
          -- The output holds something, and has the hash of its string.
          have hleaf : u.leaf? = some (sha3 u.preimage) := by rw [Utxo.leaf?_eq, if_pos hu]
          rw [List.filterMap_cons_some hleaf, List.filter_cons_of_pos hu, ih, List.map_cons,
            List.map_cons]
      | false =>
          have hne : ¬ u.isSpendable = true := by rw [hu]; exact Bool.false_ne_true
          have hleaf : u.leaf? = none := by rw [Utxo.leaf?_eq, if_neg hne]
          rw [List.filterMap_cons_none hleaf, List.filter_cons_of_neg hne, ih]

/-- The leaves are the hashes of the strings of the outputs taken, in another order. -/
theorem perm_leaves (w : Window) (s : Scan) :
    (ofScan w s).leaves.toList.Perm ((leafStrings w s.records).map sha3) := by
  rw [leafStrings, taken, ← filterMap_leaf?]
  exact LeafList.perm_ofList _

theorem exists_string_of_leaf {w : Window} {s : Scan} {leaf : Bytes32}
    (h : leaf ∈ (ofScan w s).leaves.toList) : ∃ o ∈ leafStrings w s.records, leaf = sha3 o := by
  rcases List.mem_map.mp ((perm_leaves w s).mem_iff.mp h) with ⟨o, ho, he⟩
  exact ⟨o, ho, he.symm⟩

theorem collect_eq_ok {source : Source} {w : Window} {scan : Scan} {s : Snapshot}
    (hscan : source.scan = .ok scan) (hs : collect source w = .ok s) : s = ofScan w scan := by
  rw [collect, hscan] at hs
  cases hs
  rfl

end Snapshot

end CoinCommit
