import CoinCommit.Proofs.Command.SentBack
import CoinCommit.Proofs.Ledger.Image
import CoinCommit.Proofs.Snapshot.Lookup

/-!
# The Proof of a Named Output

Whoever asks for a proof may name an output instead of its leaf. The output is
looked up in the table as it is, whatever its height, and only then is its leaf
looked for in the snapshot over the window. The look-up can find a coin outside
the window, and the leaf can be there for the sake of another output of the same
value; neither makes a difference to who gets a proof. The outputs that share a
leaf are those of one transaction, which are all inside or all outside.

## Main definitions

* `Answer.ProvesLeaf`: An answer that proves a leaf of a snapshot.

## Theorems

* `Request.requestedLeaf_eq_ok_iff`, `Request.prove_named_eq_ok_iff`: The leaf of
  the output that is named, and the answer.
* `Request.prove_output`: Which outputs have a proof, and what it is worth.
-/

namespace CoinCommit

/-- The answer prints the leaf with one of its places in the snapshot, the number of leaves and the
    root, and a proof that can be sent back with them. -/
structure Answer.ProvesLeaf (answer : Answer) (s : Snapshot) (h : Bytes32) : Prop where
  leaf : answer.toJson.member? "leaf" = some (hashJson h)
  index : ∃ i, answer.toJson.member? "index" = some (.nat i) ∧ s.leaves.toList[i]? = some h
  leafCount : answer.toJson.member? "leaf_count" = some (.nat s.leaves.length)
  root : answer.toJson.member? "root" = some (hashJson s.root.toBytes)
  proof : answer.toJson.ProvesUnder answer.toJson

theorem Answer.provesLeaf_of_proveLeaf? {s : Snapshot} {leaf : Bytes32} {i : Nat} {path : Path}
    (h : s.proveLeaf? leaf = some (i, path)) :
    (Answer.proof leaf i path s.root s.leaves.length).ProvesLeaf s leaf where
  leaf := rfl
  index := ⟨i, rfl, (Snapshot.of_proveLeaf? h).1⟩
  leafCount := rfl
  root := rfl
  proof := Json.provesUnder_of_verifies rfl rfl rfl (Snapshot.of_proveLeaf? h).2

namespace Request

variable {r : Request} {t : Table} {d d' : Disk} {txid : Bytes32}

/-- The leaf of an output is named exactly if a look-up finds it live and holding something. -/
theorem requestedLeaf_eq_ok_iff (hleaf : r.leaf = "") (htxid : Hex.decode32 r.txid = .ok txid)
    {leaf : Bytes32} :
    r.requestedLeaf t d = .ok leaf d' ↔
      (∃ record output, t.source.coin txid = .ok (some record) ∧
        record.output? r.vout = some output ∧ 0 < output.amount ∧
          leaf = Leaf.hash txid output.script output.amount) ∧ d' = d := by
  -- The empty text is no hash.
  have hnamed : ¬ r.txid.isEmpty = true := by
    intro hempty
    rw [String.isEmpty_iff.mp hempty] at htxid
    cases htxid
  have hread : hash "txid" r.txid d = .ok txid d := hash_eq_ok_iff.mpr ⟨htxid, rfl⟩
  have hcoin : t.source.coin txid = .ok (t.unspentCoin? txid) := rfl
  rw [requestedLeaf, hleaf, if_neg (by decide), if_neg hnamed, Run.bind_eq_ok_iff, hcoin]
  -- Each step of the look-up ends in one way only.
  constructor
  · rintro ⟨txid', d₁, hfirst, hrest⟩
    cases hread.symm.trans hfirst
    rcases Run.bind_eq_ok_iff.mp hrest with ⟨found, d₂, hlookup, hleaf⟩
    rcases Run.ofExcept_eq_ok_iff.mp hlookup with ⟨⟨⟩, rfl⟩
    -- Each step that finds nothing ends in an error of its own.
    rcases hfound : t.unspentCoin? txid with _ | record
    · rw [hfound] at hleaf
      cases hleaf
    rcases hout : record.output? r.vout with _ | output
    · simp only [hfound, hout] at hleaf
      cases hleaf
    by_cases hpos : 0 < output.amount
    · simp only [hfound, hout, Leaf.ofPositive?, if_pos hpos] at hleaf
      rcases Run.pure_eq_ok_iff.mp hleaf with ⟨rfl, rfl⟩
      exact ⟨⟨record, output, rfl, hout, hpos, rfl⟩, rfl⟩
    · -- An output that holds nothing has no leaf to ask for.
      simp only [hfound, hout, Leaf.ofPositive?, if_neg hpos] at hleaf
      cases hleaf
  · rintro ⟨⟨record, output, hfound, hout, hpos, rfl⟩, rfl⟩
    -- The look-up finds the record, and its slot has the leaf.
    refine ⟨txid, d', hread, Run.bind_eq_ok_iff.mpr ⟨some record, d', ?_, ?_⟩⟩
    · exact Run.ofExcept_eq_ok_iff.mpr ⟨hfound, rfl⟩
    · simp only [hout, Leaf.ofPositive?, if_pos hpos]
      rfl

/-- What `proof` answers to a request that names an output. -/
theorem prove_named_eq_ok_iff {d₁ : Disk} {opened : OpenTable} {w : Window} {answer : Answer}
    (hleaf : r.leaf = "") (htxid : Hex.decode32 r.txid = .ok txid)
    (hopen : d.openExistingTable [] r.storePath = .ok (d₁, opened))
    (hwindow : opened.table.window r.heightMin r.heightMax = .ok w) :
    r.prove d = .ok answer d' ↔
      (∃ record output i path, opened.table.source.coin txid = .ok (some record) ∧
        record.output? r.vout = some output ∧ 0 < output.amount ∧
        (Snapshot.ofScan w opened.table.scanCoins).proveLeaf?
          (Leaf.hash txid output.script output.amount) = some (i, path) ∧
        answer = .proof (Leaf.hash txid output.script output.amount) i path
          (Snapshot.ofScan w opened.table.scanCoins).root
          (Snapshot.ofScan w opened.table.scanCoins).leaves.length) ∧ d' = d₁ := by
  have hstore : r.openStore d = .ok opened.table d₁ := openStore_eq_ok_iff.mpr ⟨opened, hopen, rfl⟩
  rw [prove_eq_ok_iff]
  constructor
  · -- The table, the window and the leaf of the answer are those of the request.
    rintro ⟨t, d₂, leaf, w', i, path, hstore', hnamed, hwindow', hplace, rfl⟩
    cases hstore.symm.trans hstore'
    cases hwindow.symm.trans hwindow'
    rcases (requestedLeaf_eq_ok_iff hleaf htxid).mp hnamed with
      ⟨⟨record, output, hcoin, hout, hpos, rfl⟩, rfl⟩
    exact ⟨⟨record, output, i, path, hcoin, hout, hpos, hplace, rfl⟩, rfl⟩
  · rintro ⟨⟨record, output, i, path, hcoin, hout, hpos, hplace, rfl⟩, rfl⟩
    have hnamed : r.requestedLeaf opened.table d' =
        .ok (Leaf.hash txid output.script output.amount) d' :=
      (requestedLeaf_eq_ok_iff hleaf htxid).mpr ⟨⟨record, output, hcoin, hout, hpos, rfl⟩, rfl⟩
    exact ⟨opened.table, d', _, w, i, path, hstore, hnamed, hwindow, hplace, rfl⟩

/-- A proof is answered exactly if a look-up finds the output that is named, it holds something and
    its height is in the window. It is a proof of the leaf of that output, and there is none in
    what is printed otherwise. -/
theorem prove_output (scheme : SignatureScheme) (tag : String) (r : Request) (d d₁ : Disk)
    (opened : OpenTable) (txid : Bytes32) (w : Window) (hop : r.op = "proof") (hleaf : r.leaf = "")
    (htxid : Hex.decode32 r.txid = .ok txid)
    (hopen : d.openExistingTable [] r.storePath = .ok (d₁, opened))
    (hwindow : opened.table.window r.heightMin r.heightMax = .ok w)
    (hsep : Separated (Snapshot.leafStrings Window.all opened.table.scanCoins.records)) :
    ((∃ answer d', r.run scheme tag d = .ok answer d') ↔
      ∃ record output, opened.table.source.coin txid = .ok (some record) ∧
        record.output? r.vout = some output ∧ 0 < output.amount ∧
          w.contains record.height = true) ∧
    (∀ answer d', r.run scheme tag d = .ok answer d' →
      ∃ record output s, opened.table.source.coin txid = .ok (some record) ∧
        record.output? r.vout = some output ∧ Snapshot.collect opened.table.source w = .ok s ∧
          answer.ProvesLeaf s (Leaf.hash txid output.script output.amount)) ∧
    (∀ e d', r.run scheme tag d = .error e d' → e.toJson.member? "proof" = none) := by
  have hrun : r.run scheme tag d = r.prove d := by
    simp only [run, hop, String.reduceEq, if_false, if_true]
  rw [hrun]
  refine ⟨⟨?_, ?_⟩, ?_, ?_⟩
  · rintro ⟨answer, d', hanswer⟩
    rcases (prove_named_eq_ok_iff hleaf htxid hopen hwindow).mp hanswer with
      ⟨⟨record, output, i, path, hcoin, hout, hpos, hplace, _⟩, _⟩
    -- The leaf is there, so the height of this very record is in the window.
    have hmem := Snapshot.exists_proveLeaf?_iff.mp ⟨_, hplace⟩
    exact ⟨record, output, hcoin, hout, hpos,
      (Snapshot.mem_leaves_of_coin_iff hsep hcoin hout hpos).mp hmem⟩
  · -- The leaf of an output in the window is among the leaves, and so it has a place.
    rintro ⟨record, output, hcoin, hout, hpos, hw⟩
    have hmem := (Snapshot.mem_leaves_of_coin_iff hsep hcoin hout hpos).mpr hw
    rcases Snapshot.exists_proveLeaf?_iff.mpr hmem with ⟨⟨i, path⟩, hplace⟩
    exact ⟨_, d₁, (prove_named_eq_ok_iff hleaf htxid hopen hwindow).mpr
      ⟨⟨record, output, i, path, hcoin, hout, hpos, hplace, rfl⟩, rfl⟩⟩
  · intro answer d' hanswer
    rcases (prove_named_eq_ok_iff hleaf htxid hopen hwindow).mp hanswer with
      ⟨⟨record, output, i, path, hcoin, hout, _, hplace, rfl⟩, _⟩
    exact ⟨record, output, _, hcoin, hout, rfl, Answer.provesLeaf_of_proveLeaf? hplace⟩
  · -- What is printed of an error has no such member.
    intro e d' _
    rfl

end Request

namespace Till

/-- The secret of the one key. -/
def secret : Bytes32 := Bytes32.fill 7

/-- The script of that key. -/
def script : Bytes :=
  [0x01, 0xea, 0x4a, 0x6c, 0x63, 0xe2, 0x9c, 0x52, 0x0a, 0xbe, 0xf5, 0x50, 0x7b, 0x13, 0x2e, 0xc5,
    0xf9, 0x95, 0x47, 0x76, 0xae, 0xbe, 0xbe, 0x7b, 0x92, 0x42, 0x1e, 0xea, 0x69, 0x14, 0x46, 0xd2,
    0x2c]

/-- A record with two equal outputs of the key, one of the key that holds nothing, another script
    and a spent slot. -/
def record : CoinRecord :=
  ⟨Bytes32.fill 5, 40, true,
    [some ⟨700, script⟩, none, some ⟨0, script⟩, some ⟨700, script⟩, some ⟨30, [1]⟩]⟩

/-- A record with an output of the key, beyond the window below. -/
def later : CoinRecord := ⟨Bytes32.fill 6, 90, false, [some ⟨80, script⟩]⟩

/-- Both records and a value that cannot be read. -/
def table : Table :=
  ((Table.empty.putCoin record).putCoin later).insert (CoinKey.encode (Bytes32.fill 9)) [1, 2, 3]

/-- The heights from 10 to 50. -/
def window : Window := ⟨10, 50, by decide⟩

/-- The table in a file, and the key in another one. -/
def disk : Disk :=
  ⟨[], 0o022, [(["coins"], .file 0o644 table.toImage),
    (["keys"], .file 0o600 (Utf8.encode (KeyRing.ofSecrets [secret] : KeyRing ed25519).toText))]⟩

/-- The request for the proof of the last of the two equal outputs. -/
def proofRequest : Request :=
  { Desk.blank with
    op := "proof"
    txid := Hex.encode (Bytes32.fill 5).bytes
    vout := 3
    storePath := "coins"
    heightMin := some 10
    heightMax := some 50 }

theorem open_disk : disk.openExistingTable [] "coins" =
    .ok (disk.storeTable ["coins"] table, ⟨["coins"], table⟩) := by
  have hplace : disk.filePlace? (PathText.parse "coins") = some ["coins"] := by decide +kernel
  have hnode : disk.node? ["coins"] = some (.file 0o644 table.toImage) := rfl
  exact Disk.openExistingTable_of_image hplace hnode (by decide +kernel)

theorem separated_strings :
    Separated (Snapshot.leafStrings Window.all table.scanCoins.records) := by
  decide +kernel

end Till

/-- One of two outputs with the same leaf is named and has its proof. -/
theorem Request.prove_twin_output :
    Till.disk.openExistingTable [] "coins" =
        .ok (Till.disk.storeTable ["coins"] Till.table, ⟨["coins"], Till.table⟩) ∧
      Till.table.window (some 10) (some 50) = .ok Till.window ∧
      Separated (Snapshot.leafStrings Window.all Till.table.scanCoins.records) ∧
      ∃ answer d' s, Till.proofRequest.run ed25519 "0" Till.disk = .ok answer d' ∧
        Snapshot.collect Till.table.source Till.window = .ok s ∧
          answer.ProvesLeaf s (Leaf.hash (Bytes32.fill 5) Till.script 700) := by
  have hcoin : Till.table.source.coin (Bytes32.fill 5) = .ok (some Till.record) := by
    decide +kernel
  have hwindow : Till.table.window (some 10) (some 50) = .ok Till.window := rfl
  rcases prove_output ed25519 "0" Till.proofRequest Till.disk _ _ (Bytes32.fill 5) Till.window rfl
    rfl (Hex.decode32_encode _) Till.open_disk hwindow Till.separated_strings with
    ⟨hiff, hanswer, _⟩
  rcases hiff.mpr ⟨Till.record, ⟨700, Till.script⟩, hcoin, rfl, by decide, by decide⟩ with
    ⟨answer, d', hrun⟩
  rcases hanswer answer d' hrun with ⟨record, output, s, hcoin', hout, hcollect, hproves⟩
  -- The record that was found is the one that is stored.
  cases hcoin.symm.trans hcoin'
  cases hout
  exact ⟨Till.open_disk, hwindow, Till.separated_strings, answer, d', s, hrun, hcollect, hproves⟩

end CoinCommit
