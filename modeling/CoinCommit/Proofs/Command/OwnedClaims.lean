import Mathlib.Data.List.Perm.Basic
import CoinCommit.Proofs.Claim.Signed
import CoinCommit.Proofs.Command.OutputProof
import CoinCommit.Proofs.Wallet.KeyFile
import CoinCommit.Proofs.Wallet.Owned
import CoinCommit.Proofs.Wallet.ReadBack

/-!
# The Claims of a Key Ring

Four parts work on a request for claims, and each has its own idea of which
outputs count: the snapshot takes what holds something, the wallet what it owns,
the signer what it has keys for, and the search for proofs looks for leaves
only. They agree. What the wallet owns within the window is signed for, unless
it holds nothing, and what holds something has its leaf in the snapshot over the
same window. So no output is missing, and no claim is left without its proof.

## Main definitions

* `Json.IsClaim`, `Json.IsSkipped`: What is printed of an output.
* `Answer.ListsOwned`: An answer that lists the outputs of a key ring.

## Theorems

* `Utxo.nodup_outpoints`: Outputs in order are cut in two without repetition.
* `KeyRing.claims_table`: The batch that is made of a table.
* `Answer.listsOwned_ofBatch`: What is printed of that batch.
* `Request.claims_owned`: What is answered to a request for claims.
-/

namespace CoinCommit

/-- The item is the claim of an output: it has the data of the output and its leaf, and a proof that
    is accepted for the leaf under the root and can be sent back with the root that is printed. -/
structure Json.IsClaim (item printed : Json) (root : Root) (u : Utxo) : Prop where
  txid : item.member? "txid" = some (Answer.hashJson u.txid)
  vout : item.member? "vout" = some (.nat u.vout.toNat)
  script : item.member? "script_hex" = some (.text (Hex.encode u.script))
  amount : item.member? "amount" = some (.integer u.amount.toInt)
  leaf : item.member? "leaf" = some (Answer.hashJson (Leaf.hash u.txid u.script u.amount))
  proof : ∃ path, item.member? "proof" = some (Answer.pathJson path) ∧
    path.verifies (Leaf.hash u.txid u.script u.amount) root = true
  sentBack : item.ProvesUnder printed

/-- The item says that an output is skipped as it holds nothing. -/
structure Json.IsSkipped (item : Json) (u : Utxo) : Prop where
  txid : item.member? "txid" = some (Answer.hashJson u.txid)
  vout : item.member? "vout" = some (.nat u.vout.toNat)
  reason : item.member? "reason" = some (.text "not spendable")

/-- The answer lists the outputs that are owned, each once and in the order of their outpoints: as
    claims those that hold something, and as skipped the others. -/
structure Answer.ListsOwned (answer : Answer) (s : Snapshot) (owned : Utxo → Prop)
    (claimed skipped : List Utxo) : Prop where
  root : answer.toJson.member? "root" = some (hashJson s.root.toBytes)
  claims : ∃ items, answer.toJson.member? "claims" = some (.array items) ∧
    List.Forall₂ (fun u item => item.IsClaim answer.toJson s.root u) claimed items
  skips : ∃ items, answer.toJson.member? "skipped" = some (.array items) ∧
    List.Forall₂ (fun u item => item.IsSkipped u) skipped items
  mem_claimed : ∀ u, u ∈ claimed ↔ owned u ∧ 0 < u.amount
  mem_skipped : ∀ u, u ∈ skipped ↔ owned u ∧ ¬ 0 < u.amount
  ascending_claimed : claimed.Pairwise fun a b => a.outpoint < b.outpoint
  ascending_skipped : skipped.Pairwise fun a b => a.outpoint < b.outpoint
  once : ((claimed ++ skipped).map Utxo.outpoint).Nodup

/-- Outputs in the order of their outpoints have no outpoint twice, however they are cut in two. -/
theorem Utxo.nodup_outpoints {utxos : List Utxo}
    (h : utxos.Pairwise fun a b => a.outpoint < b.outpoint) (p : Utxo → Bool) :
    ((utxos.filter p ++ utxos.filter fun u => !p u).map outpoint).Nodup := by
  -- An outpoint comes before each one behind it, and so is none of them.
  have hnodup : (utxos.map outpoint).Nodup := by
    rw [List.Nodup, List.pairwise_map]
    refine h.imp ?_
    intro a b hlt he
    rw [he] at hlt
    exact Outpoint.lt_irrefl _ hlt
  -- The two parts together have the same outpoints.
  exact ((List.filter_append_perm p utxos).map outpoint).nodup_iff.mpr hnodup

namespace KeyRing

variable {scheme : SignatureScheme} {ring : KeyRing scheme}

theorem signs_ownedOutputs (ring : KeyRing scheme) (w : Window) (t : Table) (destination : Bytes) :
    ClaimBatch.Signs ring.sign destination (ring.ownedOutputs w t.scanCoins.records) := by
  intro u hu _
  -- The ring has the key of every output that it owns.
  exact sign_of_owns (mem_ownedOutputs_iff.mp hu).owned

/-- The batch of a table is made of the outputs that are owned within the window. -/
theorem claims_table (ring : KeyRing scheme) (w : Window) (t : Table) (signer : Signer)
    (destination : Bytes) :
    ring.claims w t.source signer destination =
      .ok (ClaimBatch.ofUtxos signer destination (ring.ownedOutputs w t.scanCoins.records)) := by
  rw [claims, unspentOutputs_table]
  rfl

theorem leaf_mem_of_ownsWithin {w : Window} {t : Table} {u : Utxo} (h : ring.OwnsWithin w t u)
    (hpos : 0 < u.amount) :
    Leaf.hash u.txid u.script u.amount ∈ (Snapshot.ofScan w t.scanCoins).leaves.toList :=
  Snapshot.leaf_mem_of_mem_taken (Snapshot.mem_taken_iff_holds.mpr ⟨h.held, h.within, hpos⟩)

end KeyRing

section

variable {printed : Json} {s : Snapshot} {u : Utxo}

/-- A claim on an output whose leaf is in the snapshot is printed with its proof. -/
theorem Answer.isClaim_claimJson {c : Claim} (hc : c.IsOf u)
    (hleaf : Leaf.hash u.txid u.script u.amount ∈ s.leaves.toList)
    (hroot : printed.member? "root" = some (hashJson s.root.toBytes)) :
    (claimJson ⟨c, (s.proveLeaf? c.leaf).map Prod.snd⟩).IsClaim printed s.root u := by
  -- The leaf is in the snapshot, so it has a path, and this path is accepted.
  rcases Snapshot.exists_proveLeaf?_iff.mpr hleaf with ⟨⟨i, path⟩, hfound⟩
  have hverifies := (Snapshot.of_proveLeaf? hfound).2
  rw [hc.leaf, hfound, Option.map_some]
  have hleafText : (claimJson ⟨c, some path⟩).member? "leaf" =
      some (hashJson (Leaf.hash u.txid u.script u.amount)) := by
    rw [← hc.leaf]
    rfl
  constructor
  case txid => rw [← hc.txid]; rfl
  case vout => rw [← hc.vout]; rfl
  case script => rw [← hc.script]; rfl
  case amount => rw [← hc.amount]; rfl
  case leaf => exact hleafText
  case proof => exact ⟨path, rfl, hverifies⟩
  case sentBack => exact Json.provesUnder_of_verifies hleafText rfl hroot hverifies

theorem Answer.isSkipped_skippedJson (u : Utxo) :
    (skippedJson ⟨u.outpoint, .notSpendable⟩).IsSkipped u :=
  ⟨rfl, rfl, rfl⟩

/-- The batch of a ring, listed with a snapshot of the same table over the same window, lists what
    the ring owns. -/
theorem Answer.listsOwned_ofBatch {scheme : SignatureScheme} (ring : KeyRing scheme) (w : Window)
    (t : Table) (destination : Bytes) :
    (Answer.ofBatch (Snapshot.ofScan w t.scanCoins)
      (ClaimBatch.ofUtxos ring.sign destination
        (ring.ownedOutputs w t.scanCoins.records))).ListsOwned
      (Snapshot.ofScan w t.scanCoins) (ring.OwnsWithin w t)
      ((ring.ownedOutputs w t.scanCoins.records).filter Utxo.isSpendable)
      ((ring.ownedOutputs w t.scanCoins.records).filter fun u => !u.isSpendable) := by
  have hascending := KeyRing.ascending_ownedOutputs ring w t
  have hsigns := KeyRing.signs_ownedOutputs ring w t destination
  -- Of the outputs that are owned those that hold something are claimed.
  have hclaimed : ∀ u, u ∈ (ring.ownedOutputs w t.scanCoins.records).filter Utxo.isSpendable ↔
      ring.OwnsWithin w t u ∧ 0 < u.amount := by
    intro u
    rw [List.mem_filter, KeyRing.mem_ownedOutputs_iff, Utxo.isSpendable, decide_eq_true_eq]
  constructor
  case root => rfl
  case claims =>
    refine ⟨_, rfl, ?_⟩
    -- What is claimed is taken by the snapshot, so each claim finds its leaf there.
    have hleaves := fun u hu =>
      KeyRing.leaf_mem_of_ownsWithin ((hclaimed u).mp hu).1 ((hclaimed u).mp hu).2
    rw [List.forall₂_map_right_iff, List.forall₂_map_right_iff]
    refine ((List.forall₂_and_left _ _).mpr ⟨hleaves, ClaimBatch.forall₂_claims hsigns⟩).imp ?_
    rintro u c ⟨hleaf, hc⟩
    exact isClaim_claimJson hc hleaf rfl
  case skips =>
    refine ⟨_, rfl, ?_⟩
    rw [ClaimBatch.skipped_eq hsigns, List.forall₂_map_right_iff, List.forall₂_map_right_iff]
    exact List.forall₂_same.mpr fun u _ => isSkipped_skippedJson u
  case mem_claimed => exact hclaimed
  case mem_skipped =>
    intro u
    rw [List.mem_filter, KeyRing.mem_ownedOutputs_iff, Utxo.isSpendable, ← decide_not,
      decide_eq_true_eq]
  case ascending_claimed => exact hascending.filter _
  case ascending_skipped => exact hascending.filter _
  case once => exact Utxo.nodup_outpoints hascending Utxo.isSpendable

end

/-- Every request for claims of a key ring that loads is answered, and the answer lists the outputs
    that the ring owns within the window. -/
theorem Request.claims_owned (scheme : SignatureScheme) (tag : String) (r : Request) (d d₁ : Disk)
    (opened : OpenTable) (ring : KeyRing scheme) (w : Window) (destination : Bytes)
    (hop : r.op = "claims") (hopen : d.openExistingTable [] r.storePath = .ok (d₁, opened))
    (hload : KeyRing.load d r.keystorePath = .ok ring)
    (hwindow : opened.table.window r.heightMin r.heightMax = .ok w)
    (hdestination : SpellsDestination r.destinationHex destination) :
    ∃ answer s claimed skipped, r.run scheme tag d = .ok answer d₁ ∧
      Snapshot.collect opened.table.source w = .ok s ∧
        answer.ListsOwned s (ring.OwnsWithin w opened.table) claimed skipped := by
  -- No key file is found under the empty path.
  have hkeystore : ¬ r.keystorePath.isEmpty = true := by
    intro hempty
    rw [String.isEmpty_iff.mp hempty, KeyRing.load, Disk.read?_empty] at hload
    cases hload
  have hrun : r.run scheme tag d = r.claims scheme d := by
    simp only [run, hop, String.reduceEq, if_false, if_true]
  have hstore := openStore_eq_ok_iff.mpr ⟨opened, hopen, rfl⟩
  -- The key file is read after the chain state is opened, and is what it was before.
  have hring := KeyRing.load_of_openExistingTable hopen hload
  have hbatch := KeyRing.claims_table ring w opened.table ring.sign destination
  have hanswer := claims_eq_ok_iff.mpr
    ⟨hkeystore, opened.table, ring, w, destination, _, hstore, hring, hwindow, hdestination,
      hbatch, rfl⟩
  exact ⟨_, _, _, _, hrun.trans hanswer, rfl,
    Answer.listsOwned_ofBatch ring w opened.table destination⟩

namespace Till

/-- The ring of the one key. -/
def ring : KeyRing ed25519 := KeyRing.ofSecrets [secret]

/-- The request for the claims of the key file. -/
def claimsRequest : Request :=
  { Desk.blank with
    op := "claims"
    storePath := "coins"
    keystorePath := "keys"
    heightMin := some 10
    heightMax := some 50 }

theorem load_disk : KeyRing.load disk "keys" = .ok ring := by
  have hread : disk.read? (PathText.parse "keys") = some (Utf8.encode ring.toText) := by
    decide +kernel
  rw [KeyRing.load, hread]
  exact ring.ofBytes_toText

/-- Outputs of the first record under the script of the key are owned. -/
theorem ownsWithin {vout : UInt32} {amount : Int64}
    (hout : record.output? vout = some ⟨amount, script⟩) :
    ring.OwnsWithin window table (record.utxo vout ⟨amount, script⟩) := by
  -- The script names the key that is in the file.
  have hstored : table.getCoin (Bytes32.fill 5) = .ok (some record) := by decide +kernel
  have hwithin : window.contains record.height = true := by decide
  have howns : ring.owns script = true := by decide +kernel
  exact ⟨⟨record, ⟨amount, script⟩, hstored, hout, rfl⟩, hwithin, howns⟩

end Till

/-- Of the outputs of the first record under the key one that holds something is claimed, and the
    one that holds nothing is skipped. -/
theorem Request.claims_owned_of_till :
    Till.disk.openExistingTable [] "coins" =
        .ok (Till.disk.storeTable ["coins"] Till.table, ⟨["coins"], Till.table⟩) ∧
      KeyRing.load Till.disk "keys" = .ok Till.ring ∧
      Till.table.window (some 10) (some 50) = .ok Till.window ∧
      ∃ answer s claimed skipped, Till.claimsRequest.run ed25519 "0" Till.disk =
          .ok answer (Till.disk.storeTable ["coins"] Till.table) ∧
        Snapshot.collect Till.table.source Till.window = .ok s ∧
        answer.ListsOwned s (Till.ring.OwnsWithin Till.window Till.table) claimed skipped ∧
          Till.record.utxo 3 ⟨700, Till.script⟩ ∈ claimed ∧
            Till.record.utxo 2 ⟨0, Till.script⟩ ∈ skipped := by
  rcases claims_owned ed25519 "0" Till.claimsRequest Till.disk _ _ Till.ring Till.window _ rfl
    Till.open_disk Till.load_disk rfl .byDefault with
    ⟨answer, s, claimed, skipped, hrun, hcollect, hlists⟩
  refine ⟨Till.open_disk, Till.load_disk, rfl, answer, s, claimed, skipped, hrun, hcollect, hlists,
    (hlists.mem_claimed _).mpr ⟨Till.ownsWithin rfl, by decide⟩, ?_⟩
  exact (hlists.mem_skipped _).mpr ⟨Till.ownsWithin rfl, by decide⟩

end CoinCommit
