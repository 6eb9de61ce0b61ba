import Mathlib.Data.List.Perm.Basic
import CoinCommit.Proofs.Command.OutputProof

/-!
# Recomputed Roots

An auditor does not trust a published root and computes it again, from the list
of records alone. The list has the outputs as texts and numbers: the auditor
keeps those that hold something and whose height lies in the window, asks for
the leaf of each, and for the root of these leaves in whatever order they come.
The program goes another way, from the scan of the table to the leaves, and
never sees a text. Both ways end in one commitment, which is also the one that
is reported with every proof and every claim over the same window.

The texts are the only link: what is printed of an output has to be read back as
that output, and what is printed of a leaf as that leaf.

## Main definitions

* `ListedOutput`: An output as an auditor reads it off a list of records.
* `ListedOutput.HasLeaf`: The leaf that is answered to whoever asks for it.
* `Json.Publishes`: A printed answer with the commitment of a snapshot.
* `Request.Finds`: A request that comes upon a table.

## Theorems

* `ListedOutput.ofPrinted?_records`: What is read off a list of records.
* `ListedOutput.filter_counts`: What the auditor keeps is what a snapshot takes.
* `ListedOutput.hasLeaf_ofUtxo`: What the auditor is answered for an output.
* `Request.publishes_of_merkleRoot`, `Request.publishes_of_run`: Both ways end in
  the commitment of the snapshot.
* `Request.root_recomputed`: The root is recomputed from a list of records.
-/

namespace CoinCommit

namespace Json

/-- An integer. -/
def integer? : Json → Option Int
  | .integer n => some n
  | _ => none

/-- The answer is printed with the commitment of a snapshot. -/
structure Publishes (printed : Json) (s : Snapshot) : Prop where
  root : printed.member? "root" = some (Answer.hashJson s.root.toBytes)
  empty : printed.member? "empty" = some (.bool s.root.isEmpty)
  leafCount : printed.member? "leaf_count" = some (.nat s.leaves.length)

end Json

/-- An output as it is listed. -/
structure ListedOutput where
  txid : String
  height : Int
  amount : Int
  scriptHex : String

/-- The request asks for the leaf of an output that is listed. -/
structure Request.AsksLeaf (r : Request) (o : ListedOutput) : Prop where
  op : r.op = "leaf_hash"
  txid : r.txid = o.txid
  scriptHex : r.scriptHex = o.scriptHex
  amount : r.amount.toInt = o.amount

/-- The request is put to a disk that has the table at its path. -/
def Request.Finds (r : Request) (d : Disk) (t : Table) : Prop :=
  ∃ d' opened, d.openExistingTable [] r.storePath = .ok (d', opened) ∧ opened.table = t

namespace ListedOutput

/-- The output that an item of a record lists. -/
def ofItem? (txid : String) (height : Int) (item : Json) : Option ListedOutput := do
  let amount ← item.member? "amount" >>= Json.integer?
  let scriptHex ← item.member? "script_hex" >>= Json.text?
  return ⟨txid, height, amount, scriptHex⟩

/-- The outputs that a record lists. -/
def ofRecord? (record : Json) : Option (List ListedOutput) := do
  let txid ← record.member? "txid" >>= Json.text?
  let height ← record.member? "height" >>= Json.integer?
  let outputs ← record.member? "outputs"
  Json.list? (ofItem? txid height) outputs

/-- The outputs of all records in a printed answer. -/
def ofPrinted? (printed : Json) : Option (List ListedOutput) := do
  let records ← printed.member? "records"
  let outputs ← Json.list? ofRecord? records
  return outputs.flatten

/-- Whether the output holds something and its height lies in a window. -/
def counts (w : Window) (o : ListedOutput) : Bool :=
  decide ((w.min.toNat : Int) ≤ o.height ∧ o.height ≤ (w.max.toNat : Int) ∧ 0 < o.amount)

/-- The leaf of the output can be asked for, and whoever does so is answered with this text. -/
def HasLeaf (o : ListedOutput) (text : String) : Prop :=
  (∃ r : Request, r.AsksLeaf o) ∧
    ∀ r : Request, r.AsksLeaf o → ∀ (scheme : SignatureScheme) (tag : String) (d : Disk),
      ∃ answer, r.run scheme tag d = .ok answer d ∧
        answer.toJson.member? "leaf" = some (.text text)

/-- An output as it is printed. -/
def ofUtxo (u : Utxo) : ListedOutput :=
  ⟨Hex.encode u.txid.bytes, u.height.toNat, u.amount.toInt, Hex.encode u.script⟩

variable {w : Window} {u : Utxo}

/-- The outputs of a record have its transaction and its height. -/
theorem ofRecord?_recordJson (r : CoinRecord) :
    ofRecord? (Answer.recordJson r) = some (r.utxos.map ofUtxo) := by
  have hitem : ∀ u ∈ r.utxos, ofItem? (Hex.encode r.txid.bytes) r.height.toNat
      (Answer.outputJson u) = some (ofUtxo u) := by
    intro u hu
    -- Each output that is listed is that of a slot of the record, and its item has its data.
    rcases List.mem_filterMap.mp hu with ⟨⟨slot, i⟩, _, hslot⟩
    rcases Option.map_eq_some_iff.mp hslot with ⟨output, _, rfl⟩
    rfl
  exact Json.list?_map hitem

/-- A list of records is read as the outputs of these records. -/
theorem ofPrinted?_records (records : List CoinRecord) (total : Nat) :
    ofPrinted? (Answer.records records total).toJson =
      some ((records.flatMap CoinRecord.utxos).map ofUtxo) := by
  have hmember : (Answer.records records total).toJson.member? "records" =
      some (.array (records.map Answer.recordJson)) := rfl
  -- The records are the only items of the answer that list outputs.
  rw [ofPrinted?, hmember, Option.bind_eq_bind, Option.bind_some,
    Json.list?_map fun r _ => ofRecord?_recordJson r, List.map_flatMap, List.flatMap]
  rfl

theorem counts_ofUtxo :
    (ofUtxo u).counts w = true ↔ w.contains u.height = true ∧ u.isSpendable = true := by
  have hamount : 0 < u.amount ↔ 0 < u.amount.toInt := Int64.lt_iff_toInt_lt
  -- Numbers are printed as they are, so the bounds on the words are bounds on what is printed.
  rw [counts, decide_eq_true_eq, Window.contains_iff, Utxo.isSpendable, decide_eq_true_eq, hamount,
    UInt64.le_iff_toNat_le, UInt64.le_iff_toNat_le, and_assoc]
  exact and_congr Int.ofNat_le (and_congr_left fun _ => Int.ofNat_le)

/-- What is kept of the outputs that are listed are the outputs that a snapshot takes. -/
theorem filter_counts (w : Window) (records : List CoinRecord) :
    ((records.flatMap CoinRecord.utxos).map ofUtxo).filter (counts w) =
      (Snapshot.taken w records).map ofUtxo := by
  change _ = ((CoinRecord.outputsAt w.contains records).filter Utxo.isSpendable).map ofUtxo
  -- The order of the two conditions does not matter.
  rw [List.filter_map, CoinRecord.outputsAt_eq_filter, List.filter_filter]
  refine congrArg (List.map ofUtxo) (List.filter_congr fun u _ => ?_)
  rw [Function.comp_apply, Bool.eq_iff_iff, counts_ofUtxo, Bool.and_eq_true, and_comm]

/-- The leaf of an output can be asked for with what is printed of the output. -/
theorem hasLeaf_ofUtxo (u : Utxo) : (ofUtxo u).HasLeaf (Hex.encode (sha3 u.preimage).bytes) := by
  constructor
  · -- Such a request has the texts that are printed, and the amount itself.
    exact ⟨{ Desk.blank with
      op := "leaf_hash"
      txid := Hex.encode u.txid.bytes
      scriptHex := Hex.encode u.script
      amount := u.amount }, rfl, rfl, rfl, rfl⟩
  · intro r hasks scheme tag d
    -- The printed amount has one word, so any such request has the amount of the output.
    have hamount : r.amount = u.amount := Int64.toInt_inj.mp hasks.amount
    have htxid : Hex.decode32 r.txid = .ok u.txid := by
      rw [hasks.txid]
      exact Hex.decode32_encode u.txid
    have hscript : Hex.decode r.scriptHex = .ok u.script := by
      rw [hasks.scriptHex]
      exact Hex.decode_encode u.script
    have hrun : r.run scheme tag d = r.leafHash d := by
      simp only [Request.run, hasks.op, if_true]
    refine ⟨.leaf (Leaf.hash u.txid u.script r.amount), ?_, ?_⟩
    · exact hrun.trans (Request.leafHash_eq_ok_iff.mpr ⟨⟨_, _, htxid, hscript, rfl⟩, rfl⟩)
    · rw [hamount]
      rfl

end ListedOutput

namespace Request

variable {scheme : SignatureScheme} {tag : String} {r : Request} {d d' : Disk} {t : Table}
  {w : Window} {answer : Answer}

theorem Finds.openStore (h : r.Finds d t) : ∃ d', r.openStore d = .ok t d' := by
  rcases h with ⟨d', opened, hopen, htable⟩
  exact ⟨d', openStore_eq_ok_iff.mpr ⟨opened, hopen, htable⟩⟩

theorem Finds.eq_of_openStore (h : r.Finds d t) {t' : Table} (hopen : r.openStore d = .ok t' d') :
    t' = t := by
  -- A path leads to one file, so what is opened is the table that was found.
  rcases h.openStore with ⟨d₁, hfound⟩
  cases hopen.symm.trans hfound
  rfl

/-- A list of all records is answered if the limit allows for it. -/
theorem exists_records_of_dump (scheme : SignatureScheme) (tag : String) (hop : r.op = "dump")
    (h : r.Finds d t) :
    ∃ d', r.run scheme tag d =
      .ok (.records (t.scanCoins.records.take (r.limit.getD defaultLimit).toNat)
        t.scanCoins.records.length) d' := by
  rcases h.openStore with ⟨d', hopen⟩
  refine ⟨d', ?_⟩
  simp only [run, hop, String.reduceEq, if_false, if_true]
  exact dump_eq_ok_iff.mpr ⟨t, hopen, rfl⟩

/-- The leaves of the outputs that a snapshot takes have its root, in whatever order they are
    sent. -/
theorem publishes_of_merkleRoot {leaves : List String} (hop : r.op = "merkle_root")
    (hleaves : leaves = (Snapshot.taken w t.scanCoins.records).map fun u =>
      Hex.encode (sha3 u.preimage).bytes)
    (hperm : r.leaves.Perm leaves) :
    ∃ answer, r.run scheme tag d = .ok answer d ∧
      answer.toJson.Publishes (Snapshot.ofScan w t.scanCoins) := by
  -- What is sent in the listed order spells the digests of the outputs taken.
  have hspelled : List.Forall₂ (fun text h => Hex.decode32 text = .ok h) leaves
      ((Snapshot.leafStrings w t.scanCoins.records).map sha3) := by
    rw [hleaves, Snapshot.leafStrings, List.map_map, List.forall₂_map_left_iff,
      List.forall₂_map_right_iff]
    exact List.forall₂_same.mpr fun u _ => Hex.decode32_encode _
  -- The texts come in another order, and so do the hashes, which are sorted all the same.
  rcases List.perm_comp_forall₂ hperm hspelled with ⟨hashes, hread, hsame⟩
  have hlist : LeafList.ofList hashes = (Snapshot.ofScan w t.scanCoins).leaves :=
    LeafList.eq_of_perm (((LeafList.perm_ofList hashes).trans hsame).trans
      (Snapshot.perm_leaves w t.scanCoins).symm)
  refine ⟨.root (LeafList.ofList hashes).root (LeafList.ofList hashes).length, ?_, ?_⟩
  · simp only [run, hop, String.reduceEq, if_false, if_true]
    exact merkleRoot_eq_ok_iff.mpr ⟨⟨hashes, hread, rfl⟩, rfl⟩
  · -- A commitment depends on the sorted list alone.
    rw [hlist]
    exact ⟨rfl, rfl, rfl⟩

/-- The operations on a window report the commitment of its snapshot. -/
theorem publishes_of_run (h : r.Finds d t) (hwindow : t.window r.heightMin r.heightMax = .ok w)
    (hop : r.op = "snapshot_root" ∨ r.op = "proof" ∨ r.op = "claims")
    (hrun : r.run scheme tag d = .ok answer d') :
    answer.toJson.Publishes (Snapshot.ofScan w t.scanCoins) := by
  rcases hop with hop | hop | hop
  · simp only [run, hop, String.reduceEq, if_false, if_true] at hrun
    rcases snapshotRoot_eq_ok_iff.mp hrun with ⟨t', d₁, w', hopen, hwindow', _, rfl⟩
    cases h.eq_of_openStore hopen
    cases hwindow.symm.trans hwindow'
    exact ⟨rfl, rfl, rfl⟩
  · simp only [run, hop, String.reduceEq, if_false, if_true] at hrun
    rcases prove_eq_ok_iff.mp hrun with
      -- The table and the window of the answer are those of the auditor.
      ⟨t', d₁, leaf, w', index, path, hopen, _, hwindow', _, rfl⟩
    cases h.eq_of_openStore hopen
    cases hwindow.symm.trans hwindow'
    exact ⟨rfl, rfl, rfl⟩
  · simp only [run, hop, String.reduceEq, if_false, if_true] at hrun
    rcases (claims_eq_ok_iff.mp hrun).2 with
      ⟨t', ring, w', destination, batch, hopen, _, hwindow', _, _, rfl⟩
    cases h.eq_of_openStore hopen
    cases hwindow.symm.trans hwindow'
    exact ⟨rfl, rfl, rfl⟩

/-- A snapshot is answered whenever no manifest is asked for. -/
theorem exists_answer_of_snapshotRoot (hop : r.op = "snapshot_root") (h : r.Finds d t)
    (hwindow : t.window r.heightMin r.heightMax = .ok w) (hmanifest : r.manifestOut = "") :
    ∃ answer d', r.run scheme tag d = .ok answer d' := by
  rcases h.openStore with ⟨d', hopen⟩
  refine ⟨.snapshot (Snapshot.ofScan w t.scanCoins), d', ?_⟩
  simp only [run, hop, String.reduceEq, if_false, if_true]
  exact snapshotRoot_eq_ok_iff.mpr
    ⟨t, d', w, hopen, hwindow, publish_of_manifestOut hmanifest tag _, rfl⟩

/-- Every list of records that leaves none out gives the auditor the leaves that have the root of
    the snapshot, in whatever order they are sent. The same commitment is reported by every answer
    about the same table and window, and one can be had without a manifest. -/
theorem root_recomputed (scheme : SignatureScheme) (tag : String) (r : Request) (d : Disk)
    (t : Table) (w : Window) (hop : r.op = "dump") (hfinds : r.Finds d t) :
    ∃ s answer d', Snapshot.collect t.source w = .ok s ∧ r.run scheme tag d = .ok answer d' ∧
      answer.toJson.member? "total" = some (.nat t.scanCoins.records.length) ∧
      (t.scanCoins.records.length ≤ (r.limit.getD defaultLimit).toNat →
        ∃ listed leaves, ListedOutput.ofPrinted? answer.toJson = some listed ∧
          List.Forall₂ ListedOutput.HasLeaf (listed.filter (ListedOutput.counts w)) leaves ∧
          ∀ q : Request, q.op = "merkle_root" → q.leaves.Perm leaves →
            ∀ (scheme : SignatureScheme) (tag : String) (d : Disk),
              ∃ recomputed, q.run scheme tag d = .ok recomputed d ∧
                recomputed.toJson.Publishes s) ∧
      ∀ (q : Request) (scheme : SignatureScheme) (tag : String) (d : Disk), q.Finds d t →
        t.window q.heightMin q.heightMax = .ok w →
          (q.op = "snapshot_root" → q.manifestOut = "" →
            ∃ published d', q.run scheme tag d = .ok published d') ∧
          ∀ published d', (q.op = "snapshot_root" ∨ q.op = "proof" ∨ q.op = "claims") →
            q.run scheme tag d = .ok published d' → published.toJson.Publishes s := by
  rcases exists_records_of_dump scheme tag hop hfinds with ⟨d', hrun⟩
  refine ⟨Snapshot.ofScan w t.scanCoins, _, d', rfl, hrun, rfl, ?_, ?_⟩
  · intro hlimit
    -- No record is left out, so what is kept of the list is what the snapshot takes.
    rw [List.take_of_length_le hlimit]
    refine ⟨_, (Snapshot.taken w t.scanCoins.records).map fun u =>
      Hex.encode (sha3 u.preimage).bytes, ListedOutput.ofPrinted?_records _ _, ?_, ?_⟩
    · -- The leaves of the outputs that count are asked for one by one.
      rw [ListedOutput.filter_counts, List.forall₂_map_left_iff, List.forall₂_map_right_iff]
      exact List.forall₂_same.mpr fun u _ => ListedOutput.hasLeaf_ofUtxo u
    · intro q hmerkle hperm scheme tag d
      exact publishes_of_merkleRoot hmerkle rfl hperm
  · intro q scheme tag d hq hwindow
    exact ⟨fun hsnapshot hmanifest => exists_answer_of_snapshotRoot hsnapshot hq hwindow hmanifest,
      fun _ _ hreports hanswer => publishes_of_run hq hwindow hreports hanswer⟩

end Request

namespace Till

/-- The request for the list of records. -/
def dumpRequest : Request :=
  { Desk.blank with
    op := "dump"
    storePath := "coins" }

/-- The request for the snapshot of the heights from 10 to 50. -/
def snapshotRequest : Request :=
  { Desk.blank with
    op := "snapshot_root"
    storePath := "coins"
    heightMin := some 10
    heightMax := some 50 }

theorem finds_table {r : Request} (h : r.storePath = "coins") : r.Finds disk table := by
  rw [Request.Finds, h]
  exact ⟨_, _, open_disk, rfl⟩

end Till

/-- Both records are listed, and three of their outputs count. Their leaves are sent the other way
    round, to a disk without files, and the commitment is that of the snapshot. -/
theorem Request.root_recomputed_of_till :
    Till.dumpRequest.Finds Till.disk Till.table ∧
      Till.table.window (some 10) (some 50) = .ok Till.window ∧
      ∃ s answer d' listed leaves, Snapshot.collect Till.table.source Till.window = .ok s ∧
        Till.dumpRequest.run ed25519 "0" Till.disk = .ok answer d' ∧
        answer.toJson.member? "total" = some (.nat 2) ∧
        ListedOutput.ofPrinted? answer.toJson = some listed ∧ leaves.length = 3 ∧
        List.Forall₂ ListedOutput.HasLeaf (listed.filter (ListedOutput.counts Till.window)) leaves ∧
        (∃ recomputed, { Desk.blank with op := "merkle_root", leaves := leaves.reverse }.run
          ed25519 "0" Desk.disk = .ok recomputed Desk.disk ∧ recomputed.toJson.Publishes s) ∧
        ∃ published d', Till.snapshotRequest.run ed25519 "0" Till.disk = .ok published d' ∧
          published.toJson.Publishes s := by
  have hdump := Till.finds_table (r := Till.dumpRequest) rfl
  have hsnapshot := Till.finds_table (r := Till.snapshotRequest) rfl
  have hwindow : Till.table.window (some 10) (some 50) = .ok Till.window := rfl
  have hrecords : Till.table.scanCoins.records.length = 2 := by decide +kernel
  have htaken : (Snapshot.taken Till.window Till.table.scanCoins.records).length = 3 := by
    decide +kernel
  rcases root_recomputed ed25519 "0" Till.dumpRequest Till.disk Till.table Till.window rfl hdump
    with ⟨s, answer, d', hcollect, hrun, htotal, haudit, hreported⟩
  rw [hrecords] at htotal haudit
  rcases haudit (by decide) with ⟨listed, leaves, hlisted, hleaves, hmerkle⟩
  -- As many leaves as outputs were taken by the snapshot.
  have hthree : leaves.length = 3 := by
    rcases exists_records_of_dump ed25519 "0" rfl hdump with ⟨d₁, hlist⟩
    cases hrun.symm.trans hlist
    rw [List.take_of_length_le (by rw [hrecords]; decide), ListedOutput.ofPrinted?_records,
      Option.some.injEq] at hlisted
    rw [← hleaves.length_eq, ← hlisted, ListedOutput.filter_counts, List.length_map, htaken]
  have hreport := hreported Till.snapshotRequest ed25519 "0" Till.disk hsnapshot hwindow
  rcases hreport.1 rfl rfl with ⟨published, d₂, hpublished⟩
  refine ⟨hdump, hwindow, s, answer, d', listed, leaves, hcollect, hrun, htotal, hlisted, hthree,
    hleaves, ?_, published, d₂, hpublished, hreport.2 published d₂ (Or.inl rfl) hpublished⟩
  exact hmerkle { Desk.blank with op := "merkle_root", leaves := leaves.reverse } rfl
    (List.reverse_perm leaves) ed25519 "0" Desk.disk

end CoinCommit
