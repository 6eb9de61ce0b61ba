import CoinCommit.Command.Answer
import CoinCommit.Command.Request
import CoinCommit.Ledger.Coins
import CoinCommit.Snapshot.Manifest
import CoinCommit.Wallet.Outputs

/-!
# Operations

What the command line does with a request. The operations that need the chain
state open one that exists; only `snapshot_root` writes, and only when a
manifest is asked for. The faults of a request are reported in the order in
which its parts are used.

## Main definitions

* `Request.run`: The answer to a request, on a disk.
* `Command.respond`: The text printed for a document.
-/

namespace CoinCommit

/-- A step of an operation on a disk. What was written before an error stays written. -/
abbrev Run := EStateM CommandError Disk

/-- A result as a step of an operation. -/
def Run.ofExcept {ε α : Type} (wrap : ε → CommandError) : Except ε α → Run α
  | .ok a => pure a
  | .error e => throw (wrap e)

namespace Request

/-- A field that holds 32 bytes as digits. -/
def hash (name text : String) : Run Bytes32 :=
  Run.ofExcept (CommandError.badHash name) (Hex.decode32 text)

/-- A field that holds bytes as digits. -/
def bytes (name text : String) : Run Bytes :=
  Run.ofExcept (CommandError.badBytes name) (Hex.decode text)

/-- The chain state that the request names. -/
def openStore (r : Request) : Run Table := do
  if r.storePath.isEmpty then throw .storePathMissing
  let (d, opened) ←
    Run.ofExcept CommandError.notOpened ((← get).openExistingTable [] r.storePath)
  set d
  return opened.table

/-- The snapshot of a table over the window that the request names. -/
def snapshot (r : Request) (t : Table) : Run Snapshot := do
  let w ← Run.ofExcept CommandError.fault (t.window r.heightMin r.heightMax)
  Run.ofExcept CommandError.fault (Snapshot.collect t.source w)

/-- The leaf that the request names: the one it gives, or that of the output it gives. -/
def requestedLeaf (r : Request) (t : Table) : Run Bytes32 := do
  if !r.leaf.isEmpty then hash "leaf" r.leaf
  else if r.txid.isEmpty then throw .leafMissing
  else
    let txid ← hash "txid" r.txid
    match ← Run.ofExcept CommandError.fault (t.source.coin txid) with
    | none => throw (.noCoin r.txid)
    | some record =>
        match record.output? r.vout with
        | none => throw (.notUnspent r.txid r.vout)
        | some output =>
            match Leaf.ofPositive? txid output.script output.amount with
            | none => throw (.notPositive r.txid r.vout)
            | some leaf => return leaf

/-- The leaf of the output that the request describes. -/
def leafHash (r : Request) : Run Answer := do
  let txid ← hash "txid" r.txid
  let script ← bytes "script_hex" r.scriptHex
  return .leaf (Leaf.hash txid script r.amount)

/-- The root of the leaves that the request lists. -/
def merkleRoot (r : Request) : Run Answer := do
  let hashes ← r.leaves.zipIdx.mapM fun entry =>
    hash ("leaves[" ++ Nat.repr entry.2 ++ "]") entry.1
  let leaves := LeafList.ofList hashes
  return .root leaves.root leaves.length

/-- Publishes a manifest if the request asks for one. -/
def publish (r : Request) (tag : String) (s : Snapshot) : Run Unit := do
  if r.manifestOut.isEmpty then return
  let (d, outcome) := (Manifest.ofSnapshot s).save (← get) r.manifestOut tag
  set d
  Run.ofExcept CommandError.notPublished outcome

/-- The snapshot of the chain state. -/
def snapshotRoot (r : Request) (tag : String) : Run Answer := do
  let t ← r.openStore
  let s ← r.snapshot t
  r.publish tag s
  return .snapshot s

/-- The proof of a leaf in the snapshot of the chain state. -/
def prove (r : Request) : Run Answer := do
  let t ← r.openStore
  -- The leaf is named before the window is looked at, so its fault is reported first.
  let leaf ← r.requestedLeaf t
  let s ← r.snapshot t
  match s.proveLeaf? leaf with
  | none => throw (.notInSnapshot leaf)
  | some (index, path) => return .proof leaf index path s.root s.leaves.length

/-- The path that the request lists. -/
def path (r : Request) : Run Path :=
  r.proof.zipIdx.mapM fun entry => do
    let sibling ← hash ("proof[" ++ Nat.repr entry.2 ++ "].sibling") entry.1.sibling
    return ⟨sibling, entry.1.siblingIsLeft⟩

/-- Whether the request's path leads from its leaf to its root. No text is the root of no
    leaves. -/
def verify (r : Request) : Run Answer := do
  let leaf ← hash "leaf" r.leaf
  let path ← r.path
  let root ← if r.root.isEmpty then pure Root.empty else Root.hash <$> hash "root" r.root
  return .verdict (path.verifies leaf root)

/-- The destination of the claims. -/
def destination (r : Request) : Run Bytes :=
  match r.destinationHex with
  | some text => bytes "destination_hex" text
  | none => return ClaimBatch.defaultDestination

/-- The claims of the key ring that the request names, with the proofs of their leaves. -/
def claims (scheme : SignatureScheme) (r : Request) : Run Answer := do
  if r.keystorePath.isEmpty then throw .keystorePathMissing
  let t ← r.openStore
  let ring : KeyRing scheme ←
    Run.ofExcept CommandError.noKeyRing (KeyRing.load (← get) r.keystorePath)
  let s ← r.snapshot t
  let destination ← r.destination
  -- The wallet lists the window of the snapshot, so that every claim finds its leaf there.
  let batch ← Run.ofExcept CommandError.fault
    (ring.claims s.window t.source ring.sign destination)
  let proven := batch.claims.map fun c => ⟨c, (s.proveLeaf? c.leaf).map Prod.snd⟩
  return .claims proven batch.skipped s.root s.leaves.length

/-- The number of records that are listed if the request names none. -/
def defaultLimit : UInt64 := 100

/-- The first records of the chain state. -/
def dump (r : Request) : Run Answer := do
  let t ← r.openStore
  let (records, total) := t.dump (r.limit.getD defaultLimit).toNat
  return .records records total

/-- The answer to a request. The tag makes the name of a temporary file unused. -/
def run (scheme : SignatureScheme) (tag : String) (r : Request) : Run Answer :=
  if r.op = "leaf_hash" then r.leafHash
  else if r.op = "merkle_root" then r.merkleRoot
  else if r.op = "snapshot_root" then r.snapshotRoot tag
  else if r.op = "proof" then r.prove
  else if r.op = "verify" then r.verify
  else if r.op = "claims" then r.claims scheme
  else if r.op = "dump" then r.dump
  else throw (.unknownOp r.op)

end Request

namespace Command

/-- The disk after a document is answered, and the text printed. -/
def respond (scheme : SignatureScheme) (tag : String) (d : Disk) (document : Bytes) :
    Disk × String :=
  match Request.ofBytes? document with
  | none => (d, Json.print Json.onOneLine CommandError.badRequest.toJson)
  | some r =>
      match r.run scheme tag d with
      | .ok answer d' => (d', Json.print Json.onOneLine answer.toJson)
      | .error e d' => (d', Json.print Json.onOneLine e.toJson)

end Command

end CoinCommit
