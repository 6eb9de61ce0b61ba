import CoinCommit.Proofs.Disk.Files
import CoinCommit.Proofs.Json.RoundTrip
import CoinCommit.Snapshot.Manifest

/-!
# Manifests That Are Read Back

A manifest is written as a document, the document as a text and the text as a
file, and whoever reads the file goes the same way back. Nothing is lost on it:
numbers of any size and texts with any characters come back as they were, and
the file is found where it was published. Only a newer schema is refused, and it
is refused for its number alone.

The root is taken apart for the file, into 32 bytes and a mark for no leaves.
The mark alone decides, so the root of a single leaf of zeros, whose bytes are
those that stand for no root, comes back as a hash.

## Main definitions

* `Manifest.given`: The fields in the document of a manifest.

## Theorems

* `Manifest.ofJson?_toJson`, `Manifest.ofBytes_toText`: What is read of a
  manifest that is written.
* `Manifest.load_of_save`: What is loaded after a manifest is saved.
* `Manifest.root_ofSnapshot`: The root of a snapshot's manifest.
* `Manifest.load_published`: The manifest of a snapshot that is published.
-/

namespace CoinCommit

namespace Json

theorem uint32?_nat (n : UInt32) : uint32? (nat n.toNat) = some n := by
  have hrange : 0 ≤ (n.toNat : Int) ∧ (n.toNat : Int).toNat < UInt32.size :=
    ⟨Int.natCast_nonneg _, n.toNat_lt⟩
  rw [nat, uint32?, if_pos hrange, Int.toNat_natCast, UInt32.ofNat_toNat]

theorem uint64?_nat (n : UInt64) : uint64? (nat n.toNat) = some n := by
  -- The number of a word is not negative and fits into one.
  have hrange : 0 ≤ (n.toNat : Int) ∧ (n.toNat : Int).toNat < UInt64.size :=
    ⟨Int.natCast_nonneg _, n.toNat_lt⟩
  rw [nat, uint64?, if_pos hrange, Int.toNat_natCast, UInt64.ofNat_toNat]

end Json

namespace Manifest

variable {m : Manifest} {s : Snapshot} {d d' : Disk} {path tag : String}

/-- The fields that a reader finds in the document of a manifest. -/
def given (m : Manifest) : Json.Fields :=
  [("schema_version", .nat m.schemaVersion.toNat), ("height_min", .nat m.heightMin.toNat),
    ("height_max", .nat m.heightMax.toNat), ("leaf_count", .nat m.leafCount.toNat),
    ("root_hex", .text m.rootHex), ("empty", .bool m.empty)]

theorem record?_toJson (m : Manifest) : Json.record? fieldNames m.toJson = some m.given := rfl

/-- Each field is read as what was written in it. -/
theorem ofJson?_toJson (m : Manifest) : ofJson? m.toJson = some m := by
  have hschema : Json.required m.given "schema_version" Json.uint32? = some m.schemaVersion :=
    Json.uint32?_nat m.schemaVersion
  have hmin : Json.required m.given "height_min" Json.uint64? = some m.heightMin :=
    Json.uint64?_nat m.heightMin
  have hmax : Json.required m.given "height_max" Json.uint64? = some m.heightMax :=
    Json.uint64?_nat m.heightMax
  have hcount : Json.required m.given "leaf_count" Json.uint64? = some m.leafCount :=
    Json.uint64?_nat m.leafCount
  have hroot : Json.required m.given "root_hex" Json.text? = some m.rootHex := rfl
  have hempty : Json.required m.given "empty" Json.bool? = some m.empty := rfl
  simp only [ofJson?, record?_toJson, hschema, hmin, hmax, hcount, hroot, hempty,
    Option.bind_eq_bind, Option.bind_some, Option.pure_def]

/-- The document has nothing that would not be written as it is. -/
theorem written_toJson (m : Manifest) : m.toJson.written = m.toJson := rfl

/-- What is read of a manifest's text depends on its schema alone. -/
theorem ofBytes_toText (m : Manifest) :
    ofBytes (Utf8.encode m.toText) =
      if currentSchema < m.schemaVersion then .error (.newerSchema m.schemaVersion) else .ok m := by
  -- The text is read as the document, and the document as the manifest.
  have hread : (Json.parse? (Utf8.encode m.toText) >>= ofJson?) = some m := by
    rw [toText, Json.parse?_print Json.isBlank_indented, written_toJson, Option.bind_eq_bind,
      Option.bind_some, ofJson?_toJson]
  simp only [ofBytes, Utf8.decode?_encode, hread]

/-- A manifest that is saved is loaded from its path, unless its schema is a newer one. -/
theorem load_of_save (h : m.save d path tag = (d', .ok ())) :
    load d' path =
      if currentSchema < m.schemaVersion then .error (.newerSchema m.schemaVersion) else .ok m := by
  rw [load, Disk.read?_of_publish h]
  exact ofBytes_toText m

/-- The root that is published is that of the snapshot. -/
theorem root_ofSnapshot (s : Snapshot) : (ofSnapshot s).root = .ok s.root := by
  rw [root, ofSnapshot]
  cases hroot : s.root with
  | empty => rfl
  | hash h =>
      -- The digits of a hash are those of the root.
      have hdigits : Hex.decode32 (Hex.encode (Root.hash h).toBytes.bytes) = .ok h :=
        Hex.decode32_encode h
      rw [hdigits]
      rfl

/-- A manifest that is saved is loaded again, be its numbers and its text what they may, and refused
    only if its schema is a newer one. That of a snapshot has the window, the number of leaves and
    the root of the snapshot. It has no root if there are no leaves and a hash if there are any,
    whatever the hash is. -/
theorem load_published :
    (∀ (m : Manifest) (d d' : Disk) (path tag : String), m.save d path tag = (d', .ok ()) →
      (m.schemaVersion ≤ currentSchema → load d' path = .ok m) ∧
        (currentSchema < m.schemaVersion →
          load d' path = .error (.newerSchema m.schemaVersion))) ∧
    ∀ (s : Snapshot) (d d' : Disk) (path tag : String),
      (ofSnapshot s).save d path tag = (d', .ok ()) →
        ∃ m, load d' path = .ok m ∧ m.heightMin = s.window.min ∧ m.heightMax = s.window.max ∧
          m.leafCount = UInt64.ofNat s.leaves.length ∧
          (s.leaves.length < UInt64.size → m.leafCount.toNat = s.leaves.length) ∧
          m.root = .ok s.root ∧ (s.leaves.toList = [] → m.root = .ok .empty) ∧
          (s.leaves.toList ≠ [] → ∃ h, s.root = .hash h ∧ m.root = .ok (.hash h)) := by
  constructor
  · intro m d d' path tag hsave
    have hload := load_of_save hsave
    refine ⟨fun hold => ?_, fun hnew => ?_⟩
    · rw [hload, if_neg (UInt32.not_lt.mpr hold)]
    · rw [hload, if_pos hnew]
  · intro s d d' path tag hsave
    have hload := load_of_save hsave
    -- What is written is never newer than what is read.
    have hschema : ¬ currentSchema < (ofSnapshot s).schemaVersion := UInt32.lt_irrefl _
    rw [if_neg hschema] at hload
    have hroot := root_ofSnapshot s
    refine ⟨ofSnapshot s, hload, rfl, rfl, rfl, fun hcount => ?_, hroot, fun hnone => ?_,
      fun hsome => ?_⟩
    · -- The number of leaves fits into a word.
      exact UInt64.toNat_ofNat_of_lt' hcount
    · rw [hroot, Snapshot.root, LeafList.root_eq_empty_iff.mpr hnone]
    · rcases LeafList.exists_root_of_ne_nil hsome with ⟨h, hhash⟩
      refine ⟨h, hhash, ?_⟩
      rw [hroot, Snapshot.root, hhash]

end Manifest

namespace Shelf

/-- A folder with a file that is to be replaced. -/
def disk : Disk :=
  ⟨["home"], 0o022, [(["home"], .folder), (["home", "out"], .folder),
    (["home", "out", "SNAPSHOT.json"], .file 0o644 [1, 2])]⟩

theorem exists_save (m : Manifest) :
    ∃ d', m.save disk "out/SNAPSHOT.json" "7.1" = (d', .ok ()) :=
  Disk.exists_publish (d := disk) _
    (show _ = some ["home", "out", ".SNAPSHOT.json.tmp.7.1"] by decide +kernel) (by decide +kernel)
    (show _ = some ["home", "out", "SNAPSHOT.json"] by decide +kernel) (by decide +kernel)

/-- A manifest with numbers at their ends and a text that is no digits. -/
def manifest : Manifest :=
  ⟨1, 0xffffffffffffffff, 0, 0xffffffffffffffff, "\"\\\n\x00\x1f/ é€😀", false⟩

/-- The snapshot of a single leaf of zeros. -/
def zeros : Snapshot := Snapshot.ofLeaves Window.all [Bytes32.zero]

end Shelf

/-- The three manifests are saved over the file. One comes back as it was, one is refused, and one
    has zeros for its root. -/
theorem Manifest.load_published_on_shelf :
    (∃ d', Shelf.manifest.save Shelf.disk "out/SNAPSHOT.json" "7.1" = (d', .ok ()) ∧
      load d' "out/SNAPSHOT.json" = .ok Shelf.manifest) ∧
    (∃ d', { Shelf.manifest with schemaVersion := 2 }.save Shelf.disk "out/SNAPSHOT.json" "7.1" =
      (d', .ok ()) ∧ load d' "out/SNAPSHOT.json" = .error (.newerSchema 2)) ∧
    ∃ d' m, (ofSnapshot Shelf.zeros).save Shelf.disk "out/SNAPSHOT.json" "7.1" = (d', .ok ()) ∧
      load d' "out/SNAPSHOT.json" = .ok m ∧ m.root = .ok (.hash Bytes32.zero) ∧
        m.leafCount.toNat = 1 := by
  rcases load_published with ⟨hmanifest, hsnapshot⟩
  refine ⟨?_, ?_, ?_⟩
  · -- What is loaded is what was saved.
    rcases Shelf.exists_save Shelf.manifest with ⟨d', hsave⟩
    exact ⟨d', hsave, (hmanifest _ _ _ _ _ hsave).1 (by decide)⟩
  · rcases Shelf.exists_save { Shelf.manifest with schemaVersion := 2 } with ⟨d', hsave⟩
    exact ⟨d', hsave, (hmanifest _ _ _ _ _ hsave).2 (by decide)⟩
  · -- The root of one leaf is that leaf.
    rcases Shelf.exists_save (ofSnapshot Shelf.zeros) with ⟨d', hsave⟩
    rcases hsnapshot _ _ _ _ _ hsave with ⟨m, hload, _, _, _, hcount, hroot, _, _⟩
    have hzeros : Shelf.zeros.root = .hash Bytes32.zero := LeafList.root_ofList_singleton _
    have hone : Shelf.zeros.leaves.length = 1 :=
      (LeafList.perm_ofList [Bytes32.zero]).length_eq
    rw [hzeros] at hroot
    refine ⟨d', m, hsave, hload, hroot, ?_⟩
    rw [hcount (by rw [hone]; decide), hone]

end CoinCommit
