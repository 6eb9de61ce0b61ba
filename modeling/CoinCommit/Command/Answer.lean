import CoinCommit.Bytes.Hex
import CoinCommit.Claim.Batch
import CoinCommit.Disk.Save
import CoinCommit.Json.Printer
import CoinCommit.Ledger.File
import CoinCommit.Snapshot.Collect
import CoinCommit.Wallet.KeyFile

/-!
# Answers

The command line answers with one JSON object: what the operation found, or
why it failed. Fields that do not belong to an answer are left out, and those
of all answers stand in one common order.

## Main definitions

* `Answer`: What an operation found.
* `CommandError`: Why an operation failed.
* `Answer.toJson`, `CommandError.toJson`: The objects that are printed.
-/

namespace CoinCommit

/-- A claim with the proof of its leaf, if the snapshot has it. -/
structure ProvenClaim where
  claim : Claim
  proof : Option Path

/-- What an operation found. -/
inductive Answer where
  | leaf (hash : Bytes32)
  | root (root : Root) (leafCount : Nat)
  | snapshot (s : Snapshot)
  | proof (leaf : Bytes32) (index : Nat) (path : Path) (root : Root) (leafCount : Nat)
  | verdict (valid : Bool)
  | claims (claims : List ProvenClaim) (skipped : List Skipped) (root : Root) (leafCount : Nat)
  | records (records : List CoinRecord) (total : Nat)

/-- Why an operation failed. -/
inductive CommandError where
  | badRequest
  | unknownOp (op : String)
  | badHash (name : String) (e : Hex32Error)
  | badBytes (name : String) (e : HexError)
  | storePathMissing
  | keystorePathMissing
  | notOpened (e : OpenError)
  | noKeyRing (e : KeyFileError)
  | fault (f : Fault)
  | notPublished (e : PublishError)
  | leafMissing
  | noCoin (txid : String)
  | notUnspent (txid : String) (vout : UInt32)
  | notPositive (txid : String) (vout : UInt32)
  | notInSnapshot (leaf : Bytes32)

/-- The text of the error. -/
def CommandError.message : CommandError → String
  | .badRequest => "bad request"
  | .unknownOp op => "unknown op: " ++ op
  | .badHash name e => e.message name
  | .badBytes name e => name ++ ": " ++ e.message
  | .storePathMissing => "store_path required"
  | .keystorePathMissing => "keystore_path required"
  | .notOpened e => e.message
  | .noKeyRing e => e.message
  | .fault f => f.display
  | .notPublished e => e.message
  | .leafMissing => "leaf or txid required"
  | .noCoin txid => "no unspent coin for txid " ++ txid
  | .notUnspent txid vout =>
      "output " ++ txid ++ ":" ++ Nat.repr vout.toNat ++ " not unspent"
  | .notPositive txid vout =>
      "output " ++ txid ++ ":" ++ Nat.repr vout.toNat ++ " has non-positive amount"
  | .notInSnapshot leaf => "leaf " ++ Hex.encode leaf.bytes ++ " not in snapshot"

/-- The object that is printed for a failure. -/
def CommandError.toJson (e : CommandError) : Json :=
  .fields [("ok", .bool false), ("err", .text e.message)]

namespace Answer

/-- A hash as its digits. -/
def hashJson (h : Bytes32) : Json := .text (Hex.encode h.bytes)

/-- A path as the list of its steps. -/
def pathJson (path : Path) : Json :=
  .array (path.map fun step =>
    .fields [("sibling", hashJson step.sibling), ("sibling_is_left", .bool step.siblingIsLeft)])

/-- A claim; its proof is left out if there is none. -/
def claimJson (c : ProvenClaim) : Json :=
  .present [("txid", some (hashJson c.claim.txid)), ("vout", some (.nat c.claim.vout.toNat)),
    ("script_hex", some (.text (Hex.encode c.claim.script))),
    ("amount", some (.integer c.claim.amount.toInt)), ("leaf", some (hashJson c.claim.leaf)),
    ("authorization", some (.text (Hex.encode c.claim.authorization))),
    ("proof", c.proof.map pathJson)]

/-- A skipped output with its reason. -/
def skippedJson (s : Skipped) : Json :=
  .fields [("txid", hashJson s.outpoint.txid), ("vout", .nat s.outpoint.vout.toNat),
    ("reason", .text s.reason.message)]

/-- A live output of a record. -/
def outputJson (u : Utxo) : Json :=
  .fields [("vout", .nat u.vout.toNat), ("amount", .integer u.amount.toInt),
    ("script_hex", .text (Hex.encode u.script))]

/-- A record with its live outputs. -/
def recordJson (r : CoinRecord) : Json :=
  .fields [("txid", hashJson r.txid), ("height", .nat r.height.toNat),
    ("coinbase", .bool r.coinbase), ("outputs", .array (r.utxos.map outputJson))]

/-- The fields of a root: its hash, zeros if it has none, and whether it has none. -/
def rootFields (r : Root) (count : Nat) : List (String × Json) :=
  [("root", hashJson r.toBytes), ("empty", .bool r.isEmpty), ("leaf_count", .nat count)]

/-- The fields of an answer, in the common order. -/
def fields : Answer → List (String × Json)
  | .leaf h => [("leaf", hashJson h)]
  | .root r count => rootFields r count
  | .snapshot s =>
      rootFields s.root s.leaves.length ++
        [("height_min", .nat s.window.min.toNat), ("height_max", .nat s.window.max.toNat),
          ("malformed_skipped", .nat s.tally.malformedSkipped)]
  | .proof h index path r count =>
      ("leaf", hashJson h) :: rootFields r count ++
        [("index", .nat index), ("proof", pathJson path)]
  | .verdict valid => [("valid", .bool valid)]
  | .claims cs skipped r count =>
      rootFields r count ++
        [("claims", .array (cs.map claimJson)), ("skipped", .array (skipped.map skippedJson))]
  | .records rs total =>
      [("records", .array (rs.map recordJson)), ("total", .nat total)]

/-- The object that is printed for an answer. -/
def toJson (a : Answer) : Json := .fields (("ok", .bool true) :: a.fields)

end Answer

end CoinCommit
