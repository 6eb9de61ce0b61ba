import CoinCommit.Proofs.Merkle.AnyLength
import CoinCommit.Proofs.Snapshot.Strings
import CoinCommit.Wallet.Script

/-!
# What Inclusion Proves

The leaf of an output whose script names a key is the hash of 73 bytes. A path
that is accepted for it under the root of a snapshot therefore starts at a leaf
of the snapshot, and the output is one of those taken, unless the path runs on
below a leaf. It can do so in one way: a script of 24 bytes makes the string of
an output 64 bytes long, and leaves and pairs are hashed alike. If its two
halves are the hash of the claimed leaf and any other one, a path leads from
the claim through that output to the root.

`forged_inclusion` is such a claim. The amount and the script of the output
that is really there spell the claimed leaf, and the claimed output does not
exist.

## Theorems

* `Snapshot.inclusion_of_key_output`: What an accepted path proves of an output
  that a key owns.
-/

namespace CoinCommit

namespace Snapshot

/-- A path of any length that is accepted for the leaf of an output owned by a key proves that the
    output is live in a record within the window. The one exception is a path that hashes, at one
    of its steps, the very string of an output taken; such an output has a script of 24 bytes,
    and the steps that are left are those from its leaf to the root. -/
theorem inclusion_of_key_output (source : Source) (w : Window) (scan : Scan) (s : Snapshot)
    (hscan : source.scan = .ok scan) (hs : collect source w = .ok s) (txid : Bytes32)
    (script : Bytes) (amount : Int64) (path : Path)
    (hscript : (KeyScript.decode? script).isSome = true)
    (hv : path.verifies (Leaf.hash txid script amount) s.root = true)
    (hsep : Separated (strings w scan ++ Leaf.preimage txid script amount ::
      Path.strings path (Leaf.hash txid script amount))) :
    (∃ r ∈ scan.records, w.contains r.height = true ∧
      ∃ u ∈ r.utxos, u.txid = txid ∧ u.script = script ∧ u.amount = amount) ∨
    ∃ u ∈ taken w scan.records, u.script.length = 24 ∧
      ∃ lower step upper, path = lower ++ step :: upper ∧
        step.string (Path.apply lower (Leaf.hash txid script amount)) = u.preimage ∧
          upper.length = Nat.clog 2 s.leaves.length := by
  have he := collect_eq_ok hscan hs
  subst he
  have hfold := LeafList.verifies_root_iff.mp hv
  -- The script names a key, so the string is longer than a pair of hashes.
  have hstart : (Leaf.preimage txid script amount).length ≠ 64 := by
    rw [Leaf.length_preimage, (KeyScript.isSome_decode?_iff.mp hscript).1]
    omega
  rcases Path.start_of_verifies path _ (leafStrings w scan.records) _
    (fun _ hleaf => exists_string_of_leaf hleaf) hstart hfold hsep with
    ⟨hmem, _⟩ | ⟨lower, step, upper, hsplit, hupper, hmem⟩
  · -- The claimed string is that of an output taken, which then has its value.
    rcases List.mem_map.mp hmem with ⟨u, hu, hpre⟩
    rcases Leaf.preimage_injective hpre with ⟨htxid, hsc, ham⟩
    rcases mem_taken_iff.mp hu with ⟨r, hr, hw, hlive, _⟩
    exact Or.inl ⟨r, hr, hw, u, hlive, htxid, hsc, ham⟩
  · -- The path runs on below the leaf of an output whose string is a pair.
    rcases List.mem_map.mp hmem with ⟨u, hu, hpre⟩
    have hlen : u.preimage.length = 64 := by rw [hpre, PathStep.length_string]
    exact Or.inr ⟨u, hu, Utxo.length_script_of_length_preimage hlen, lower, step, upper, hsplit,
      hpre.symm, hupper⟩

end Snapshot

namespace Forged

/-- The transaction of an output that no record holds. -/
def txid : Bytes32 := ⟨List.replicate 28 0x11 ++ [0x0c, 0x61, 0x48, 0x00], rfl⟩

/-- The script of that output, which names a key. -/
def script : Bytes := KeyScript.encode (Bytes32.fill 0x22)

/-- The leaf of that output, whose last three bytes happen to be zero. -/
def leaf : Bytes32 := Leaf.hash txid script 5000

/-- A record whose output spells that leaf: its script is the first 24 bytes, its amount the
    rest. -/
def record : CoinRecord :=
  ⟨Bytes32.fill 0x33, 7, false,
    [some ⟨LittleEndian.toInt64 (leaf.bytes.drop 24), leaf.bytes.take 24⟩]⟩

/-- The one step from the claimed leaf to the leaf of the record's output. -/
def path : Path := [⟨Bytes32.fill 0x33, true⟩]

/-- What a scan yields that finds this record only. -/
def scan : Scan := ⟨[record], 0⟩

/-- The output's string is the pair that the path hashes. -/
theorem leafStrings_eq :
    Snapshot.leafStrings Window.all scan.records = [pairString (Bytes32.fill 0x33) leaf] := by
  decide +kernel

theorem leaves_eq : (Snapshot.ofScan Window.all scan).leaves.toList =
    [hashPair (Bytes32.fill 0x33) leaf] := by
  -- One string makes one leaf.
  have hperm := Snapshot.perm_leaves Window.all scan
  rw [leafStrings_eq] at hperm
  exact List.perm_singleton.mp hperm

theorem verifies_eq :
    path.verifies leaf (Snapshot.ofScan Window.all scan).root = true := by
  have hfold : Merkle.fold (Snapshot.ofScan Window.all scan).leaves.toList =
      some (hashPair (Bytes32.fill 0x33) leaf) := by
    rw [leaves_eq, Merkle.fold]
  exact LeafList.verifies_root_iff.mpr hfold

/-- The two strings that are hashed here, one of them on both sides, do not collide. -/
theorem separated_strings :
    Separated (Snapshot.strings Window.all scan ++ Leaf.preimage txid script 5000 ::
      Path.strings path leaf) := by
  have hsep : Separated [pairString (Bytes32.fill 0x33) leaf, Leaf.preimage txid script 5000] := by
    decide +kernel
  have hfold : Merkle.foldStrings (Snapshot.ofScan Window.all scan).leaves.toList = [] := by
    rw [leaves_eq]
    rfl
  -- A single leaf is not hashed any further.
  refine hsep.of_subset ?_
  rw [Snapshot.strings, leafStrings_eq, hfold]
  intro s hs
  simp only [path, Path.strings, PathStep.string, if_true, List.append_nil, List.mem_append,
    List.mem_cons, List.not_mem_nil, or_false] at hs ⊢
  rcases hs with hs | hs | hs
  · exact Or.inl hs
  · exact Or.inr hs
  · exact Or.inl hs

end Forged

/-- The premises can all be met: here by a path that runs on below a leaf. -/
theorem Snapshot.inclusion_of_forged_output :
    (KeyScript.decode? Forged.script).isSome = true ∧
      Forged.path.verifies Forged.leaf (ofScan Window.all Forged.scan).root = true ∧
        ((∃ r ∈ Forged.scan.records, Window.all.contains r.height = true ∧
          ∃ u ∈ r.utxos, u.txid = Forged.txid ∧ u.script = Forged.script ∧ u.amount = 5000) ∨
        ∃ u ∈ taken Window.all Forged.scan.records, u.script.length = 24 ∧
          ∃ lower step upper, Forged.path = lower ++ step :: upper ∧
            step.string (Path.apply lower Forged.leaf) = u.preimage ∧
              upper.length = Nat.clog 2 (ofScan Window.all Forged.scan).leaves.length) := by
  have hkey : (KeyScript.decode? Forged.script).isSome = true := by decide
  exact ⟨hkey, Forged.verifies_eq, inclusion_of_key_output (Source.ofRecords [Forged.record])
    Window.all Forged.scan _ rfl rfl Forged.txid Forged.script 5000 Forged.path hkey
    Forged.verifies_eq Forged.separated_strings⟩

/-- An accepted path need not prove that the output exists, although the strings that are hashed do
    not collide: the one output of the source has another transaction, script and amount. -/
theorem forged_inclusion :
    (KeyScript.decode? Forged.script).isSome = true ∧ (0 : Int64) < 5000 ∧
      (∃ s, Snapshot.collect (Source.ofRecords [Forged.record]) Window.all = .ok s ∧
        Forged.path.verifies (Leaf.hash Forged.txid Forged.script 5000) s.root = true) ∧
      Separated (Snapshot.strings Window.all Forged.scan ++
        Leaf.preimage Forged.txid Forged.script 5000 :: Path.strings Forged.path
          (Leaf.hash Forged.txid Forged.script 5000)) ∧
      ¬ ∃ r ∈ [Forged.record], Window.all.contains r.height = true ∧
        ∃ u ∈ r.utxos, u.txid = Forged.txid ∧ u.script = Forged.script ∧ u.amount = 5000 := by
  refine ⟨by decide, by decide, ⟨_, rfl, Forged.verifies_eq⟩, Forged.separated_strings, ?_⟩
  intro h
  rcases h with ⟨r, hr, _, u, hu, htxid, _⟩
  -- The one record has outputs of its own transaction only.
  rw [List.mem_singleton.mp hr] at hu
  have hsame : ∀ v ∈ Forged.record.utxos, v.txid = Bytes32.fill 0x33 := by decide +kernel
  have hother : Forged.txid ≠ Bytes32.fill 0x33 := by decide
  exact hother (htxid.symm.trans (hsame u hu))

end CoinCommit
