import CoinCommit.Curve.Signature
import CoinCommit.Proofs.Bytes.HexDigits
import CoinCommit.Proofs.Command.Steps
import CoinCommit.Proofs.Merkle.Completeness

/-!
# Published Roots

Four operations report a root. What is printed of it are 32 bytes and whether
there are leaves at all; `verify` is given the 32 bytes only, and no text
for no leaves. So a root that is printed is the root that is read, with one
exception: the root of no leaves is printed as 32 zero bytes, which are read as
a hash like any other. A list with the single leaf of zeros has that hash as its
root, so there is no reading of the text under which both are what they were;
that is why `empty` is printed beside it.

## Main definitions

* `Answer.root?`: The root that an answer reports.
* `Json.member?`: The member of an object under a name.
* `Request.AnsweredWith`: The verdict that is answered to a request.

## Theorems

* `Answer.printed_of_root?`: What is printed of a root.
* `Request.exists_root_of_run`: The four operations report a root.
* `Request.answeredWith_verifies`: The verdict on well-formed texts.
* `Request.answeredWith_of_published`: A root that is printed is the root that
  is read, unless there are no leaves.
* `published_zeros`: No leaves and a single leaf of zeros have one text.
-/

namespace CoinCommit

/-- The member of an object under a name. -/
def Json.member? (name : String) : Json → Option Json
  | .object members => members.lookup (some name)
  | _ => none

namespace Answer

/-- The root that an answer reports. -/
def root? : Answer → Option Root
  | .root r _ => some r
  | .snapshot s => some s.root
  | .proof _ _ _ r _ => some r
  | .claims _ _ r _ => some r
  | .leaf _ => none
  | .verdict _ => none
  | .records _ _ => none

/-- What is printed of a root that is reported. -/
theorem printed_of_root? {answer : Answer} {root : Root} (h : answer.root? = some root) :
    answer.toJson.member? "root" = some (.text (Hex.encode root.toBytes.bytes)) ∧
      answer.toJson.member? "empty" = some (.bool root.isEmpty) := by
  -- Only these answers have a root.
  cases answer with
  | root r count => cases h; exact ⟨rfl, rfl⟩
  | snapshot s => cases h; exact ⟨rfl, rfl⟩
  | proof leaf index path r count => cases h; exact ⟨rfl, rfl⟩
  | claims claims skipped r count => cases h; exact ⟨rfl, rfl⟩
  | leaf | verdict | records => cases h

end Answer

namespace Request

variable {scheme : SignatureScheme} {tag : String} {r : Request} {d d' : Disk} {answer : Answer}

theorem exists_root_of_merkleRoot (h : r.merkleRoot d = .ok answer d') :
    ∃ root, answer.root? = some root := by
  rcases (merkleRoot_eq_ok_iff.mp h).1 with ⟨hashes, _, rfl⟩
  exact ⟨_, rfl⟩

theorem exists_root_of_snapshotRoot (h : r.snapshotRoot tag d = .ok answer d') :
    ∃ root, answer.root? = some root := by
  rcases snapshotRoot_eq_ok_iff.mp h with ⟨t, d₁, w, _, _, _, rfl⟩
  exact ⟨_, rfl⟩

theorem exists_root_of_prove (h : r.prove d = .ok answer d') :
    ∃ root, answer.root? = some root := by
  rcases prove_eq_ok_iff.mp h with ⟨t, d₁, leaf, w, index, path, _, _, _, _, rfl⟩
  exact ⟨_, rfl⟩

theorem exists_root_of_claims (h : r.claims scheme d = .ok answer d') :
    ∃ root, answer.root? = some root := by
  rcases (claims_eq_ok_iff.mp h).2 with ⟨t, ring, w, destination, batch, _, _, _, _, _, rfl⟩
  exact ⟨_, rfl⟩

/-- The four operations report a root whenever they succeed. -/
theorem exists_root_of_run
    (hop : r.op = "merkle_root" ∨ r.op = "snapshot_root" ∨ r.op = "proof" ∨ r.op = "claims")
    (h : r.run scheme tag d = .ok answer d') : ∃ root, answer.root? = some root := by
  rcases hop with hop | hop | hop | hop
  · simp only [run, hop, String.reduceEq, if_false, if_true] at h
    exact exists_root_of_merkleRoot h
  · simp only [run, hop, String.reduceEq, if_false, if_true] at h
    exact exists_root_of_snapshotRoot h
  · simp only [run, hop, String.reduceEq, if_false, if_true] at h
    exact exists_root_of_prove h
  · simp only [run, hop, String.reduceEq, if_false, if_true] at h
    exact exists_root_of_claims h

-- A step is well formed if its sibling is; its side is a truth value already.
theorem exists_path {texts : List StepText}
    (h : ∀ text ∈ texts, Hex.SpellsHash text.sibling) :
    ∃ path, List.Forall₂ StepText.Spells texts path := by
  induction texts with
  | nil => exact ⟨[], List.Forall₂.nil⟩
  | cons text texts ih =>
      -- The sibling of the first step is well formed, and the others are read as before.
      rcases (h text List.mem_cons_self).decode32 with ⟨sibling, hsibling⟩
      rcases ih fun text' ht => h text' (List.mem_cons_of_mem text ht) with ⟨path, hpath⟩
      exact ⟨⟨sibling, text.siblingIsLeft⟩ :: path, List.Forall₂.cons ⟨hsibling, rfl⟩ hpath⟩

/-- The request is answered with a verdict, whatever is on the disk, and leaves the disk alone. -/
def AnsweredWith (r : Request) (valid : Bool) : Prop :=
  ∀ (scheme : SignatureScheme) (tag : String) (d : Disk),
    r.run scheme tag d = .ok (.verdict valid) d

/-- The verdict on a leaf, a path and a root that are spelled. -/
theorem answeredWith_verifies {leaf : Bytes32} {path : Path} {root : Root} (hop : r.op = "verify")
    (hleaf : Hex.decode32 r.leaf = .ok leaf) (hpath : List.Forall₂ StepText.Spells r.proof path)
    (hroot : SpellsRoot r.root root) : r.AnsweredWith (path.verifies leaf root) := by
  intro scheme tag d
  simp only [run, hop, String.reduceEq, if_false, if_true]
  exact verify_eq_ok_iff.mpr ⟨⟨leaf, path, root, hleaf, hpath, hroot, rfl⟩, rfl⟩

/-- A root is reported together with its text. If there are leaves, the verdict under that text is
    that of the root, for every leaf and every path. If there are none, the text is 32 zero bytes
    and is read as such, and it is the empty text under which nothing is found. -/
theorem answeredWith_of_published (scheme : SignatureScheme) (tag : String) (r : Request)
    (d d' : Disk) (answer : Answer)
    (hop : r.op = "merkle_root" ∨ r.op = "snapshot_root" ∨ r.op = "proof" ∨ r.op = "claims")
    (hrun : r.run scheme tag d = .ok answer d') :
    ∃ root text, answer.root? = some root ∧ answer.toJson.member? "root" = some (.text text) ∧
      answer.toJson.member? "empty" = some (.bool root.isEmpty) ∧
      (root.isEmpty = true → text = Hex.encode Bytes32.zero.bytes) ∧
      ∀ v : Request, v.op = "verify" → Hex.SpellsHash v.leaf →
        (∀ step ∈ v.proof, Hex.SpellsHash step.sibling) →
        ∃ leaf path, Hex.decode32 v.leaf = .ok leaf ∧
          List.Forall₂ StepText.Spells v.proof path ∧
          (root.isEmpty = false → v.root = text →
            v.AnsweredWith (Path.verifies path leaf root)) ∧
          (root.isEmpty = true → v.root = text →
            v.AnsweredWith (decide (Path.apply path leaf = Bytes32.zero))) ∧
          (root.isEmpty = true → v.root = "" →
            v.AnsweredWith (Path.verifies path leaf root) ∧
              Path.verifies path leaf root = false) := by
  rcases exists_root_of_run hop hrun with ⟨root, hroot⟩
  have hprinted := Answer.printed_of_root? hroot
  -- The text of the empty root is printed as zeros.
  have hzeros : root.isEmpty = true →
      Hex.encode root.toBytes.bytes = Hex.encode Bytes32.zero.bytes := by
    intro hempty
    cases root with
    | empty => rfl
    | hash h => cases hempty
  refine ⟨root, Hex.encode root.toBytes.bytes, hroot, hprinted.1, hprinted.2, hzeros, ?_⟩
  intro v hverify hleaf hproof
  rcases hleaf.decode32 with ⟨leaf, hleaf⟩
  rcases exists_path hproof with ⟨path, hpath⟩
  refine ⟨leaf, path, hleaf, hpath, ?_⟩
  -- The text that is printed always spells a hash, be it that of the root or zeros.
  have hhash : v.root = Hex.encode root.toBytes.bytes →
      v.AnsweredWith (Path.verifies path leaf (.hash root.toBytes)) := by
    intro htext
    have hspells : SpellsRoot v.root (.hash root.toBytes) := by
      rw [htext]
      exact .hash (Hex.decode32_encode root.toBytes)
    exact answeredWith_verifies hverify hleaf hpath hspells
  cases root with
  | empty =>
      -- There is no hash, so the text of zeros stands for another root.
      refine ⟨fun h => ?_, fun _ => hhash, fun _ hempty => ⟨?_, rfl⟩⟩
      · cases h
      · have hspells : SpellsRoot v.root .empty := by
          rw [hempty]
          exact .empty
        exact answeredWith_verifies hverify hleaf hpath hspells
  | hash h =>
      -- There is a hash, which is not the empty root.
      refine ⟨fun _ => hhash, fun h => ?_, fun h => ?_⟩
      · cases h
      · cases h

end Request

namespace Desk

/-- A request without any fields. -/
def blank : Request :=
  ⟨"", "", 0, "", 0, [], "", [], "", "", none, none, "", "", none, none⟩

/-- The request for the root of some leaves. -/
def rootOf (leaves : List Bytes32) : Request :=
  { blank with op := "merkle_root", leaves := leaves.map fun leaf => Hex.encode leaf.bytes }

/-- The request to check a path. -/
def check (leaf : Bytes32) (path : Path) (root : String) : Request :=
  { blank with
    op := "verify"
    leaf := Hex.encode leaf.bytes
    proof := path.map fun step => ⟨Hex.encode step.sibling.bytes, step.siblingIsLeft⟩
    root := root }

/-- A disk without files. -/
def disk : Disk := ⟨[], 0o022, []⟩

theorem run_rootOf (leaves : List Bytes32) :
    (rootOf leaves).run ed25519 "0" disk =
      .ok (.root (LeafList.ofList leaves).root (LeafList.ofList leaves).length) disk := by
  have hop : (rootOf leaves).op = "merkle_root" := rfl
  simp only [Request.run, hop, String.reduceEq, if_false, if_true]
  refine Request.merkleRoot_eq_ok_iff.mpr ⟨⟨leaves, ?_, rfl⟩, rfl⟩
  exact List.forall₂_map_left_iff.mpr (List.forall₂_same.mpr fun leaf _ => Hex.decode32_encode leaf)

theorem spells_steps (path : Path) (leaf : Bytes32) (root : String) :
    List.Forall₂ StepText.Spells (check leaf path root).proof path :=
  List.forall₂_map_left_iff.mpr
    (List.forall₂_same.mpr fun step _ => ⟨Hex.decode32_encode step.sibling, rfl⟩)

end Desk

/-- The root of two leaves is printed, and the second leaf is found under it. -/
theorem Request.answeredWith_of_two_leaves :
    ∃ root text,
      (Desk.rootOf [Bytes32.fill 2, Bytes32.fill 1]).run ed25519 "0" Desk.disk =
        .ok (.root root 2) Desk.disk ∧
      (Answer.root root 2).toJson.member? "root" = some (.text text) ∧ root.isEmpty = false ∧
      (Desk.check (Bytes32.fill 2) [⟨Bytes32.fill 1, true⟩] text).AnsweredWith true := by
  have hsorted : LeafList.ofList [Bytes32.fill 2, Bytes32.fill 1] =
      ⟨[Bytes32.fill 1, Bytes32.fill 2], by decide⟩ :=
    LeafList.eq_of_perm ((LeafList.perm_ofList _).trans (List.Perm.swap _ _ _))
  -- Two leaves are one pair.
  have hroot : (LeafList.ofList [Bytes32.fill 2, Bytes32.fill 1]).root =
      .hash (hashPair (Bytes32.fill 1) (Bytes32.fill 2)) := by
    rw [hsorted]
    apply LeafList.root_eq_of_fold
    rw [Merkle.fold_eq_fold_parents (by decide)]
    show Merkle.fold [_] = _
    rw [Merkle.fold]
  have hrun := Desk.run_rootOf [Bytes32.fill 2, Bytes32.fill 1]
  rw [hroot, hsorted] at hrun
  rcases answeredWith_of_published ed25519 "0" _ Desk.disk Desk.disk _ (Or.inl rfl) hrun with
    ⟨root, text, hreported, htext, _, _, hverify⟩
  cases hreported
  refine ⟨_, text, hrun, htext, rfl, ?_⟩
  have hsteps : ∀ step ∈ (Desk.check (Bytes32.fill 2) [⟨Bytes32.fill 1, true⟩] text).proof,
      Hex.SpellsHash step.sibling := by
    intro step hstep
    rw [List.mem_singleton.mp hstep]
    -- The one sibling is printed, so it is well formed.
    exact Hex.spellsHash_encode _
  rcases hverify (Desk.check (Bytes32.fill 2) [⟨Bytes32.fill 1, true⟩] text) rfl
    (Hex.spellsHash_encode _) hsteps with ⟨leaf, path, hleaf, hpath, hanswered, _⟩
  -- The texts were written for this leaf and this step, so no others are read.
  cases hleaf.symm.trans (Hex.decode32_encode (Bytes32.fill 2))
  cases List.right_unique_forall₂' StepText.spells_rightUnique hpath (Desk.spells_steps _ _ _)
  -- The pair of the sibling and the leaf is the root.
  have hfound : Path.verifies [⟨Bytes32.fill 1, true⟩] (Bytes32.fill 2)
      (.hash (hashPair (Bytes32.fill 1) (Bytes32.fill 2))) = true := by
    simp only [Path.verifies, Path.apply, List.foldl_cons, List.foldl_nil, if_true, decide_true]
  have hverdict := hanswered rfl rfl
  rw [hfound] at hverdict
  exact hverdict

/-- The root of no leaves is printed as the root of a single leaf of zeros is, so whatever `verify`
    answers under that text is wrong for one of them. It answers that the leaf is there. -/
theorem published_zeros :
    (∃ answer, (Desk.rootOf []).run ed25519 "0" Desk.disk = .ok answer Desk.disk ∧
      answer.root? = some .empty ∧
      answer.toJson.member? "root" = some (.text (Hex.encode Bytes32.zero.bytes)) ∧
      Path.verifies [] Bytes32.zero .empty = false) ∧
    (∃ answer, (Desk.rootOf [Bytes32.zero]).run ed25519 "0" Desk.disk = .ok answer Desk.disk ∧
      answer.root? = some (.hash Bytes32.zero) ∧
      answer.toJson.member? "root" = some (.text (Hex.encode Bytes32.zero.bytes)) ∧
      Path.verifies [] Bytes32.zero (.hash Bytes32.zero) = true) ∧
    (Desk.check Bytes32.zero [] (Hex.encode Bytes32.zero.bytes)).AnsweredWith true := by
  have hnone : (LeafList.ofList []).root = .empty :=
    LeafList.root_eq_empty_iff.mpr (LeafList.perm_ofList []).eq_nil
  have hone : (LeafList.ofList [Bytes32.zero]).root = .hash Bytes32.zero :=
    LeafList.root_ofList_singleton Bytes32.zero
  -- A leaf is found under itself by the empty path.
  have hfound : Path.verifies [] Bytes32.zero (.hash Bytes32.zero) = true := by
    simp only [Path.verifies, Path.apply, List.foldl_nil, decide_true]
  have hverdict := Request.answeredWith_verifies rfl (Hex.decode32_encode Bytes32.zero)
    (Desk.spells_steps [] Bytes32.zero (Hex.encode Bytes32.zero.bytes))
    (.hash (Hex.decode32_encode Bytes32.zero))
  rw [hfound] at hverdict
  refine ⟨⟨_, Desk.run_rootOf [], ?_, ?_, rfl⟩, ⟨_, Desk.run_rootOf [Bytes32.zero], ?_, ?_, hfound⟩,
    hverdict⟩
  · rw [Answer.root?, hnone]
  · rw [hnone]
    rfl
  · rw [Answer.root?, hone]
  · rw [hone]
    rfl

end CoinCommit
