import CoinCommit.Bytes.Hex
import CoinCommit.Disk.Save
import CoinCommit.Json.Printer
import CoinCommit.Json.Record
import CoinCommit.Snapshot.Collect

/-!
# Manifests

A manifest publishes a snapshot: its window, the number of its leaves and its
root, with a mark that tells the root of no leaves from a root of zeros. It is
a JSON file of six fields. Files of a newer schema are refused, those of an
older one are read.

## Main definitions

* `Manifest`: The six fields.
* `Manifest.ofSnapshot`, `Manifest.root`: From a snapshot, and back to its root.
* `Manifest.toText`, `Manifest.ofBytes`: The text of a file, and its reading.
* `Manifest.load`, `Manifest.save`: The same with a file on a disk.
* `ManifestError`: Why a file is not a manifest.
-/

namespace CoinCommit

/-- What is published of a snapshot. -/
structure Manifest where
  schemaVersion : UInt32
  heightMin : UInt64
  heightMax : UInt64
  leafCount : UInt64
  rootHex : String
  empty : Bool
deriving DecidableEq

/-- Why a file gives no manifest. -/
inductive ManifestError where
  | unreadable
  | notJson
  | newerSchema (version : UInt32)
deriving DecidableEq

namespace Manifest

/-- The schema of the manifests that are written, and the newest that is read. -/
def currentSchema : UInt32 := 1

/-- The manifest of a snapshot. -/
def ofSnapshot (s : Snapshot) : Manifest where
  schemaVersion := currentSchema
  heightMin := s.window.min
  heightMax := s.window.max
  leafCount := UInt64.ofNat s.leaves.length
  rootHex := Hex.encode s.root.toBytes.bytes
  empty := s.root.isEmpty

/-- The published root. -/
def root (m : Manifest) : Except Hex32Error Root :=
  if m.empty then .ok .empty else (Hex.decode32 m.rootHex).map .hash

/-- A manifest as a document. -/
def toJson (m : Manifest) : Json :=
  .fields [("schema_version", .nat m.schemaVersion.toNat), ("height_min", .nat m.heightMin.toNat),
    ("height_max", .nat m.heightMax.toNat), ("leaf_count", .nat m.leafCount.toNat),
    ("root_hex", .text m.rootHex), ("empty", .bool m.empty)]

/-- The text of a manifest's file. -/
def toText (m : Manifest) : String := Json.print Json.indented m.toJson

/-- The names of the fields, in their order. -/
def fieldNames : List String :=
  ["schema_version", "height_min", "height_max", "leaf_count", "root_hex", "empty"]

/-- The manifest that a document gives. -/
def ofJson? (value : Json) : Option Manifest := do
  let fields ← Json.record? fieldNames value
  let schemaVersion ← Json.required fields "schema_version" Json.uint32?
  let heightMin ← Json.required fields "height_min" Json.uint64?
  let heightMax ← Json.required fields "height_max" Json.uint64?
  let leafCount ← Json.required fields "leaf_count" Json.uint64?
  let rootHex ← Json.required fields "root_hex" Json.text?
  let empty ← Json.required fields "empty" Json.bool?
  return ⟨schemaVersion, heightMin, heightMax, leafCount, rootHex, empty⟩

/-- The manifest in a file's bytes. -/
def ofBytes (content : Bytes) : Except ManifestError Manifest :=
  match Utf8.decode? content with
  | none => .error .unreadable
  | some _ =>
      match Json.parse? content >>= ofJson? with
      | none => .error .notJson
      | some m =>
          if currentSchema < m.schemaVersion then .error (.newerSchema m.schemaVersion) else .ok m

/-- The manifest in the file at a path. -/
def load (d : Disk) (path : String) : Except ManifestError Manifest :=
  match d.read? (PathText.parse path) with
  | none => .error .unreadable
  | some content => ofBytes content

/-- The disk after a manifest is published at a path. -/
def save (m : Manifest) (d : Disk) (path tag : String) : Disk × Except PublishError Unit :=
  d.publish path tag (Utf8.encode m.toText)

end Manifest

/-- The text of the error. -/
def ManifestError.message : ManifestError → String
  | .unreadable => "read manifest"
  | .notJson => "parse manifest"
  | .newerSchema version =>
      "manifest schema_version " ++ Nat.repr version.toNat ++ " is newer than supported " ++
        Nat.repr Manifest.currentSchema.toNat

end CoinCommit
