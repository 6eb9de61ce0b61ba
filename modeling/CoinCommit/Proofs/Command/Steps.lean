import Mathlib.Data.List.Forall2
import CoinCommit.Command.Run

/-!
# The Steps of an Operation

An operation that succeeds has succeeded in every step, one disk handed on to
the next. The laws here take such a run apart, and put it together again; with
them an operation is described by what its steps have read and found, and its
body need not be looked at any more. `verify_eq_ok_iff` is such a description:
it covers every answer, as `verify` neither looks at the disk nor changes it.

## Main definitions

* `StepText.Spells`: The step that is written as a text.
* `Answer.ofBatch`: The answer that lists a batch of claims.
* `Request.SpellsRoot`: The root that is written as a text.
* `Request.SpellsDestination`: The destination that is written, or the one that
  is meant if none is.

## Theorems

* `Run.bind_eq_ok_iff`: A run of two operations, one after the other.
* `Request.path_eq_ok_iff`: Which path is read.
* `Request.verify_eq_ok_iff`, `Request.leafHash_eq_ok_iff`,
  `Request.merkleRoot_eq_ok_iff`: What `verify`, `leaf_hash` and `merkle_root`
  answer.
* `Request.openStore_eq_ok_iff`, `Request.snapshot_eq_ok_iff`: Which chain state
  is read, and which snapshot is taken of it.
* `Request.snapshotRoot_eq_ok_iff`, `Request.dump_eq_ok_iff`,
  `Request.prove_eq_ok_iff`, `Request.claims_eq_ok_iff`: What `snapshot_root`,
  `dump`, `proof` and `claims` answer.
-/

namespace CoinCommit

namespace Run

variable {ε α β : Type} {d d' : Disk}

theorem bind_eq_ok_iff {x : Run α} {f : α → Run β} {b : β} :
    (x >>= f) d = .ok b d' ↔ ∃ a d₁, x d = .ok a d₁ ∧ f a d₁ = .ok b d' := by
  change EStateM.bind x f d = _ ↔ _
  rw [EStateM.bind]
  rcases x d with ⟨a, d₁⟩ | ⟨e, d₁⟩
  · constructor
    · exact fun h => ⟨a, d₁, rfl, h⟩
    · rintro ⟨_, _, ⟨⟩, h⟩
      exact h
  · constructor
    · intro h
      cases h
    · rintro ⟨_, _, ⟨⟩, _⟩

theorem pure_eq_ok_iff {a b : α} : (pure a : Run α) d = .ok b d' ↔ b = a ∧ d' = d := by
  constructor
  · rintro ⟨⟩
    exact ⟨rfl, rfl⟩
  · rintro ⟨rfl, rfl⟩
    rfl

theorem ofExcept_eq_ok_iff {wrap : ε → CommandError} {x : Except ε α} {a : α} :
    ofExcept wrap x d = .ok a d' ↔ x = .ok a ∧ d' = d := by
  rcases x with e | b
  · constructor
    · intro h
      cases h
    · rintro ⟨⟨⟩, _⟩
  · rw [ofExcept, pure_eq_ok_iff, Except.ok.injEq]
    exact and_congr_left fun _ => eq_comm

/-- A list is read item by item if no item changes the disk. What is read may not depend on the
    number of the item, which is named in faults only. -/
theorem mapM_zipIdx_eq_ok_iff {f : α × Nat → Run β} (reads : α → β → Prop)
    (hf : ∀ (a : α) (i : Nat) (d d' : Disk) (b : β), f (a, i) d = .ok b d' ↔ reads a b ∧ d' = d)
    {as : List α} {bs : List β} (start : Nat) :
    (as.zipIdx start).mapM f d = .ok bs d' ↔ List.Forall₂ reads as bs ∧ d' = d := by
  induction as generalizing bs start d d' with
  | nil => rw [List.zipIdx_nil, List.mapM_nil, pure_eq_ok_iff, List.forall₂_nil_left_iff]
  | cons a as ih =>
      rw [List.zipIdx_cons, List.mapM_cons, bind_eq_ok_iff, List.forall₂_cons_left_iff]
      constructor
      · rintro ⟨b, d₁, hfirst, hrest⟩
        -- The first item leaves the disk as it was, so the rest is read on the same one.
        rcases (hf a start d d₁ b).mp hfirst with ⟨hb, rfl⟩
        rcases bind_eq_ok_iff.mp hrest with ⟨bs', d₂, htail, hcons⟩
        rcases (ih (start + 1)).mp htail with ⟨hbs, rfl⟩
        rcases pure_eq_ok_iff.mp hcons with ⟨rfl, rfl⟩
        exact ⟨⟨b, bs', hb, hbs, rfl⟩, rfl⟩
      · rintro ⟨⟨b, bs', hb, hbs, rfl⟩, rfl⟩
        refine ⟨b, d', (hf a start d' d' b).mpr ⟨hb, rfl⟩, bind_eq_ok_iff.mpr ?_⟩
        exact ⟨bs', d', (ih (start + 1)).mpr ⟨hbs, rfl⟩, rfl⟩

end Run

/-- The empty path names no file. -/
theorem Disk.read?_empty (d : Disk) : d.read? (PathText.parse "") = none := by
  have hempty : (PathText.parse "").isEmpty = true := by
    rw [PathText.isEmpty, PathText.text_parse]
    rfl
  rw [Disk.read?, Disk.find?, hempty, Bool.true_or, if_pos rfl]
  rfl

/-- The step is written as this text. -/
structure StepText.Spells (text : StepText) (step : PathStep) : Prop where
  sibling : Hex.decode32 text.sibling = .ok step.sibling
  side : step.siblingIsLeft = text.siblingIsLeft

theorem StepText.spells_rightUnique : Relator.RightUnique StepText.Spells := by
  rintro text ⟨sibling, side⟩ ⟨sibling', side'⟩ ⟨hsibling, hside⟩ ⟨hsibling', hside'⟩
  cases hsibling.symm.trans hsibling'
  cases hside.trans hside'.symm
  rfl

/-- The answer that lists a batch, each claim with the path of its leaf in a snapshot, if the leaf
    is there. -/
def Answer.ofBatch (s : Snapshot) (batch : ClaimBatch) : Answer :=
  .claims (batch.claims.map fun c => ⟨c, (s.proveLeaf? c.leaf).map Prod.snd⟩) batch.skipped s.root
    s.leaves.length

namespace Request

/-- The root is written as this text: no text for no leaves, and digits for a hash. -/
inductive SpellsRoot : String → Root → Prop where
  | empty : SpellsRoot "" .empty
  | hash {text : String} {h : Bytes32} (digits : Hex.decode32 text = .ok h) :
      SpellsRoot text (.hash h)

variable {r : Request} {d d' : Disk}

theorem hash_eq_ok_iff {name text : String} {h : Bytes32} :
    hash name text d = .ok h d' ↔ Hex.decode32 text = .ok h ∧ d' = d :=
  Run.ofExcept_eq_ok_iff

-- A path is read step by step, whatever is on the disk.
theorem path_eq_ok_iff {path : Path} :
    r.path d = .ok path d' ↔ List.Forall₂ StepText.Spells r.proof path ∧ d' = d := by
  refine Run.mapM_zipIdx_eq_ok_iff StepText.Spells (fun text i d d' step => ?_) 0
  rw [Run.bind_eq_ok_iff]
  constructor
  · rintro ⟨sibling, d₁, hsibling, hstep⟩
    rcases hash_eq_ok_iff.mp hsibling with ⟨hdigits, rfl⟩
    rcases Run.pure_eq_ok_iff.mp hstep with ⟨rfl, rfl⟩
    exact ⟨⟨hdigits, rfl⟩, rfl⟩
  · rintro ⟨⟨hsibling, hside⟩, rfl⟩
    refine ⟨step.sibling, d', hash_eq_ok_iff.mpr ⟨hsibling, rfl⟩, ?_⟩
    rw [Run.pure_eq_ok_iff, ← hside]
    exact ⟨rfl, rfl⟩

-- The two branches of the text are one reading of it: no text is the root of no leaves, and any
-- other is digits.
theorem bind_root_eq_ok_iff {α : Type} {text : String} {next : Root → Run α} {a : α} :
    (if text.isEmpty then pure Root.empty >>= next else (Root.hash <$> hash "root" text) >>= next)
        d = .ok a d' ↔
      ∃ root, SpellsRoot text root ∧ next root d = .ok a d' := by
  by_cases htext : text.isEmpty = true
  · -- The empty text spells no hash, so the one root it spells is that of no leaves.
    rw [if_pos htext, pure_bind]
    have hempty : text = "" := String.isEmpty_iff.mp htext
    subst hempty
    constructor
    · exact fun h => ⟨.empty, .empty, h⟩
    · rintro ⟨root, hroot, h⟩
      cases hroot with
      | empty => exact h
      | hash digits => cases digits
  · rw [if_neg htext, map_eq_pure_bind, bind_assoc, Run.bind_eq_ok_iff]
    constructor
    · rintro ⟨h, d₁, hread, hnext⟩
      rcases hash_eq_ok_iff.mp hread with ⟨hdigits, rfl⟩
      rw [pure_bind] at hnext
      exact ⟨.hash h, .hash hdigits, hnext⟩
    · rintro ⟨root, hroot, hnext⟩
      cases hroot with
      | empty => exact absurd rfl htext
      | @hash _ h digits => exact ⟨h, d, hash_eq_ok_iff.mpr ⟨digits, rfl⟩, by rwa [pure_bind]⟩

/-- What `verify` answers: its texts have to be well formed, and then the answer is that of the
    leaf, the path and the root they spell. -/
theorem verify_eq_ok_iff {answer : Answer} :
    r.verify d = .ok answer d' ↔
      (∃ leaf path root, Hex.decode32 r.leaf = .ok leaf ∧
        List.Forall₂ StepText.Spells r.proof path ∧ SpellsRoot r.root root ∧
          answer = .verdict (Path.verifies path leaf root)) ∧ d' = d := by
  rw [verify, Run.bind_eq_ok_iff]
  constructor
  · -- Each step gives back the disk it was given, so they are peeled off on one disk.
    rintro ⟨leaf, d₁, hfirst, hrest⟩
    rcases hash_eq_ok_iff.mp hfirst with ⟨hleaf, rfl⟩
    rcases Run.bind_eq_ok_iff.mp hrest with ⟨path, d₂, hsecond, hthird⟩
    rcases path_eq_ok_iff.mp hsecond with ⟨hpath, rfl⟩
    rcases bind_root_eq_ok_iff.mp hthird with ⟨root, hroot, hverdict⟩
    rcases Run.pure_eq_ok_iff.mp hverdict with ⟨rfl, rfl⟩
    exact ⟨⟨leaf, path, root, hleaf, hpath, hroot, rfl⟩, rfl⟩
  · rintro ⟨⟨leaf, path, root, hleaf, hpath, hroot, rfl⟩, rfl⟩
    refine ⟨leaf, d', hash_eq_ok_iff.mpr ⟨hleaf, rfl⟩, ?_⟩
    refine Run.bind_eq_ok_iff.mpr ⟨path, d', path_eq_ok_iff.mpr ⟨hpath, rfl⟩, ?_⟩
    exact bind_root_eq_ok_iff.mpr ⟨root, hroot, rfl⟩

/-- What `leaf_hash` answers: the leaf of the transaction and the script that are spelled, with the
    amount as it is. -/
theorem leafHash_eq_ok_iff {answer : Answer} :
    r.leafHash d = .ok answer d' ↔
      (∃ txid script, Hex.decode32 r.txid = .ok txid ∧ Hex.decode r.scriptHex = .ok script ∧
        answer = .leaf (Leaf.hash txid script r.amount)) ∧ d' = d := by
  rw [leafHash, Run.bind_eq_ok_iff]
  constructor
  · rintro ⟨txid, d₁, hfirst, hrest⟩
    rcases hash_eq_ok_iff.mp hfirst with ⟨htxid, rfl⟩
    rcases Run.bind_eq_ok_iff.mp hrest with ⟨script, d₂, hsecond, hanswer⟩
    rcases Run.ofExcept_eq_ok_iff.mp hsecond with ⟨hscript, rfl⟩
    rcases Run.pure_eq_ok_iff.mp hanswer with ⟨rfl, rfl⟩
    exact ⟨⟨txid, script, htxid, hscript, rfl⟩, rfl⟩
  · rintro ⟨⟨txid, script, htxid, hscript, rfl⟩, rfl⟩
    refine ⟨txid, d', hash_eq_ok_iff.mpr ⟨htxid, rfl⟩, ?_⟩
    exact Run.bind_eq_ok_iff.mpr ⟨script, d', Run.ofExcept_eq_ok_iff.mpr ⟨hscript, rfl⟩, rfl⟩

theorem leaves_eq_ok_iff {hashes : List Bytes32} :
    (r.leaves.zipIdx.mapM fun entry => hash ("leaves[" ++ Nat.repr entry.2 ++ "]") entry.1) d =
        .ok hashes d' ↔
      List.Forall₂ (fun text h => Hex.decode32 text = .ok h) r.leaves hashes ∧ d' = d :=
  Run.mapM_zipIdx_eq_ok_iff (fun text h => Hex.decode32 text = .ok h)
    (fun _ _ _ _ _ => hash_eq_ok_iff) 0

/-- What `merkle_root` answers: the root of the hashes that are spelled, whatever their order. -/
theorem merkleRoot_eq_ok_iff {answer : Answer} :
    r.merkleRoot d = .ok answer d' ↔
      (∃ hashes, List.Forall₂ (fun text h => Hex.decode32 text = .ok h) r.leaves hashes ∧
        answer = .root (LeafList.ofList hashes).root (LeafList.ofList hashes).length) ∧ d' = d := by
  rw [merkleRoot, Run.bind_eq_ok_iff]
  constructor
  · rintro ⟨hashes, d₁, hread, hanswer⟩
    rcases leaves_eq_ok_iff.mp hread with ⟨hhashes, rfl⟩
    rcases Run.pure_eq_ok_iff.mp hanswer with ⟨rfl, rfl⟩
    exact ⟨⟨hashes, hhashes, rfl⟩, rfl⟩
  · rintro ⟨⟨hashes, hhashes, rfl⟩, rfl⟩
    exact ⟨hashes, d', leaves_eq_ok_iff.mpr ⟨hhashes, rfl⟩, rfl⟩

/-- The chain state is the one that is there at the path of the request. -/
theorem openStore_eq_ok_iff {t : Table} :
    r.openStore d = .ok t d' ↔
      ∃ opened, d.openExistingTable [] r.storePath = .ok (d', opened) ∧ opened.table = t := by
  rw [openStore]
  by_cases hpath : r.storePath.isEmpty = true
  · -- A path that is refused as missing would not have been opened either.
    rw [if_pos hpath, String.isEmpty_iff.mp hpath, Disk.openExistingTable, Disk.isFile,
      Disk.read?_empty, Option.isSome_none, if_neg Bool.false_ne_true]
    constructor
    · intro h
      cases h
    · rintro ⟨opened, ⟨⟩, _⟩
  · rw [if_neg hpath]
    constructor
    · intro h
      -- The disk is read, the table opened on it, and the new disk put in its place.
      rcases Run.bind_eq_ok_iff.mp h with ⟨disk, d₁, hget, hrest⟩
      cases hget
      rcases Run.bind_eq_ok_iff.mp hrest with ⟨⟨d₂, opened⟩, d₃, hread, hset⟩
      rcases Run.ofExcept_eq_ok_iff.mp hread with ⟨hopen, rfl⟩
      cases hset
      exact ⟨opened, hopen, rfl⟩
    · rintro ⟨opened, hopen, rfl⟩
      refine Run.bind_eq_ok_iff.mpr ⟨d, d, rfl, ?_⟩
      refine Run.bind_eq_ok_iff.mpr ⟨(d', opened), d, Run.ofExcept_eq_ok_iff.mpr ⟨hopen, rfl⟩, ?_⟩
      rfl

/-- The snapshot is that of a scan of the table over the window that the bounds give. -/
theorem snapshot_eq_ok_iff {t : Table} {s : Snapshot} :
    r.snapshot t d = .ok s d' ↔
      (∃ w, t.window r.heightMin r.heightMax = .ok w ∧ s = Snapshot.ofScan w t.scanCoins) ∧
        d' = d := by
  rw [snapshot, Run.bind_eq_ok_iff]
  constructor
  · rintro ⟨w, d₁, hfirst, hsecond⟩
    rcases Run.ofExcept_eq_ok_iff.mp hfirst with ⟨hwindow, rfl⟩
    rcases Run.ofExcept_eq_ok_iff.mp hsecond with ⟨⟨⟩, rfl⟩
    exact ⟨⟨w, hwindow, rfl⟩, rfl⟩
  · rintro ⟨⟨w, hwindow, rfl⟩, rfl⟩
    exact ⟨w, d', Run.ofExcept_eq_ok_iff.mpr ⟨hwindow, rfl⟩,
      Run.ofExcept_eq_ok_iff.mpr ⟨rfl, rfl⟩⟩

/-- What `snapshot_root` answers, if the manifest it may be asked for is published. -/
theorem snapshotRoot_eq_ok_iff {tag : String} {answer : Answer} :
    r.snapshotRoot tag d = .ok answer d' ↔
      ∃ t d₁ w, r.openStore d = .ok t d₁ ∧ t.window r.heightMin r.heightMax = .ok w ∧
        r.publish tag (Snapshot.ofScan w t.scanCoins) d₁ = .ok () d' ∧
          answer = .snapshot (Snapshot.ofScan w t.scanCoins) := by
  rw [snapshotRoot, Run.bind_eq_ok_iff]
  constructor
  · -- The window is known once the table is open, and it is looked at before anything is published.
    rintro ⟨t, d₁, hopen, hrest⟩
    rcases Run.bind_eq_ok_iff.mp hrest with ⟨s, d₂, hsnapshot, hpublished⟩
    rcases snapshot_eq_ok_iff.mp hsnapshot with ⟨⟨w, hwindow, rfl⟩, rfl⟩
    rcases Run.bind_eq_ok_iff.mp hpublished with ⟨⟨⟩, d₃, hpublish, hanswer⟩
    rcases Run.pure_eq_ok_iff.mp hanswer with ⟨rfl, rfl⟩
    exact ⟨t, d₂, w, hopen, hwindow, hpublish, rfl⟩
  · rintro ⟨t, d₁, w, hopen, hwindow, hpublish, rfl⟩
    refine ⟨t, d₁, hopen, ?_⟩
    refine Run.bind_eq_ok_iff.mpr ⟨_, d₁, snapshot_eq_ok_iff.mpr ⟨⟨w, hwindow, rfl⟩, rfl⟩, ?_⟩
    exact Run.bind_eq_ok_iff.mpr ⟨(), d', hpublish, rfl⟩

/-- Nothing is written if no manifest is asked for. -/
theorem publish_of_manifestOut (h : r.manifestOut = "") (tag : String) (s : Snapshot) :
    r.publish tag s d = .ok () d := by
  rw [publish, if_pos (String.isEmpty_iff.mpr h)]
  rfl

/-- What `dump` answers: the first records and the number of all. -/
theorem dump_eq_ok_iff {answer : Answer} :
    r.dump d = .ok answer d' ↔
      ∃ t, r.openStore d = .ok t d' ∧
        answer = .records (t.scanCoins.records.take (r.limit.getD defaultLimit).toNat)
          t.scanCoins.records.length := by
  rw [dump, Run.bind_eq_ok_iff]
  constructor
  · rintro ⟨t, d₁, hopen, hanswer⟩
    rcases Run.pure_eq_ok_iff.mp hanswer with ⟨rfl, rfl⟩
    exact ⟨t, hopen, rfl⟩
  · rintro ⟨t, hopen, rfl⟩
    exact ⟨t, d', hopen, rfl⟩

/-- What `proof` answers: the first place of the leaf that is named, in the snapshot over the window
    that the bounds give. -/
theorem prove_eq_ok_iff {answer : Answer} :
    r.prove d = .ok answer d' ↔
      ∃ t d₁ leaf w index path, r.openStore d = .ok t d₁ ∧ r.requestedLeaf t d₁ = .ok leaf d' ∧
        t.window r.heightMin r.heightMax = .ok w ∧
          (Snapshot.ofScan w t.scanCoins).proveLeaf? leaf = some (index, path) ∧
            answer = .proof leaf index path (Snapshot.ofScan w t.scanCoins).root
              (Snapshot.ofScan w t.scanCoins).leaves.length := by
  rw [prove, Run.bind_eq_ok_iff]
  constructor
  · rintro ⟨t, d₁, hopen, hrest⟩
    -- The table may change the disk as it is opened. The leaf is looked up on the disk after that.
    rcases Run.bind_eq_ok_iff.mp hrest with ⟨leaf, d₂, hleaf, hrest⟩
    rcases Run.bind_eq_ok_iff.mp hrest with ⟨s, d₃, hsnapshot, hproof⟩
    rcases snapshot_eq_ok_iff.mp hsnapshot with ⟨⟨w, hwindow, rfl⟩, rfl⟩
    -- A leaf without a place is an error, not an answer.
    rcases hfound : (Snapshot.ofScan w t.scanCoins).proveLeaf? leaf with _ | ⟨index, path⟩
    · rw [hfound] at hproof
      cases hproof
    · rw [hfound] at hproof
      rcases Run.pure_eq_ok_iff.mp hproof with ⟨rfl, rfl⟩
      exact ⟨t, d₁, leaf, w, index, path, hopen, hleaf, hwindow, hfound, rfl⟩
  · rintro ⟨t, d₁, leaf, w, index, path, hopen, hleaf, hwindow, hfound, rfl⟩
    refine ⟨t, d₁, hopen, Run.bind_eq_ok_iff.mpr ⟨leaf, d', hleaf, ?_⟩⟩
    refine Run.bind_eq_ok_iff.mpr ⟨_, d', snapshot_eq_ok_iff.mpr ⟨⟨w, hwindow, rfl⟩, rfl⟩, ?_⟩
    rw [hfound]
    rfl

/-- The destination is written as this text, or none is written. -/
inductive SpellsDestination : Option String → Bytes → Prop where
  | given {text : String} {destination : Bytes} (digits : Hex.decode text = .ok destination) :
      SpellsDestination (some text) destination
  | byDefault : SpellsDestination none ClaimBatch.defaultDestination

theorem destination_eq_ok_iff {destination : Bytes} :
    r.destination d = .ok destination d' ↔
      SpellsDestination r.destinationHex destination ∧ d' = d := by
  rw [Request.destination]
  rcases r.destinationHex with _ | text
  · constructor
    · intro h
      rcases Run.pure_eq_ok_iff.mp h with ⟨rfl, rfl⟩
      exact ⟨.byDefault, rfl⟩
    · rintro ⟨⟨⟩, rfl⟩
      rfl
  · constructor
    · intro h
      rcases Run.ofExcept_eq_ok_iff.mp h with ⟨hdigits, rfl⟩
      exact ⟨.given hdigits, rfl⟩
    · rintro ⟨⟨hdigits⟩, rfl⟩
      exact Run.ofExcept_eq_ok_iff.mpr ⟨hdigits, rfl⟩

/-- What `claims` answers: the batch of the key ring over the window of the snapshot. -/
theorem claims_eq_ok_iff {scheme : SignatureScheme} {answer : Answer} :
    r.claims scheme d = .ok answer d' ↔
      ¬ r.keystorePath.isEmpty = true ∧ ∃ (t : Table) (ring : KeyRing scheme) (w : Window)
        (destination : Bytes) (batch : ClaimBatch), r.openStore d = .ok t d' ∧
          KeyRing.load d' r.keystorePath = .ok ring ∧
          t.window r.heightMin r.heightMax = .ok w ∧
          SpellsDestination r.destinationHex destination ∧
          ring.claims w t.source ring.sign destination = .ok batch ∧
          answer = .ofBatch (Snapshot.ofScan w t.scanCoins) batch := by
  rw [claims]
  constructor
  · intro h
    by_cases hkeystore : r.keystorePath.isEmpty = true
    · rw [if_pos hkeystore] at h
      cases h
    rw [if_neg hkeystore] at h
    -- From here on in the order of the program: the table, the ring on the disk that is left, the
    -- snapshot, the destination, and last the batch.
    rcases Run.bind_eq_ok_iff.mp h with ⟨t, d₁, hopen, hread⟩
    rcases Run.bind_eq_ok_iff.mp hread with ⟨disk, d₂, hget, hring⟩
    cases hget
    rcases Run.bind_eq_ok_iff.mp hring with ⟨ring, d₃, hfirst, hscan⟩
    rcases Run.ofExcept_eq_ok_iff.mp hfirst with ⟨hload, rfl⟩
    rcases Run.bind_eq_ok_iff.mp hscan with ⟨s, d₄, hsecond, htext⟩
    rcases snapshot_eq_ok_iff.mp hsecond with ⟨⟨w, hwindow, rfl⟩, rfl⟩
    rcases Run.bind_eq_ok_iff.mp htext with ⟨destination, d₅, hthird, hbatch⟩
    rcases destination_eq_ok_iff.mp hthird with ⟨hspells, rfl⟩
    rcases Run.bind_eq_ok_iff.mp hbatch with ⟨batch, d₆, hfourth, hanswer⟩
    rcases Run.ofExcept_eq_ok_iff.mp hfourth with ⟨hclaims, rfl⟩
    rcases Run.pure_eq_ok_iff.mp hanswer with ⟨rfl, rfl⟩
    exact ⟨hkeystore, t, ring, w, destination, batch, hopen, hload, hwindow, hspells, hclaims, rfl⟩
  · rintro ⟨hkeystore, t, ring, w, destination, batch, hopen, hload, hwindow, hspells, hclaims, rfl⟩
    -- And back with the same disk from the table on, as nothing after it writes.
    rw [if_neg hkeystore]
    refine Run.bind_eq_ok_iff.mpr ⟨t, d', hopen, ?_⟩
    refine Run.bind_eq_ok_iff.mpr ⟨d', d', rfl, ?_⟩
    refine Run.bind_eq_ok_iff.mpr ⟨ring, d', Run.ofExcept_eq_ok_iff.mpr ⟨hload, rfl⟩, ?_⟩
    refine Run.bind_eq_ok_iff.mpr ⟨_, d', snapshot_eq_ok_iff.mpr ⟨⟨w, hwindow, rfl⟩, rfl⟩, ?_⟩
    refine Run.bind_eq_ok_iff.mpr
      ⟨destination, d', destination_eq_ok_iff.mpr ⟨hspells, rfl⟩, ?_⟩
    exact Run.bind_eq_ok_iff.mpr ⟨batch, d', Run.ofExcept_eq_ok_iff.mpr ⟨hclaims, rfl⟩, rfl⟩

end Request

end CoinCommit
