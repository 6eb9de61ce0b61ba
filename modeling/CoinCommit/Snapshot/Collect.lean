import CoinCommit.Coin.Leaf
import CoinCommit.Merkle.Path
import CoinCommit.Snapshot.Source
import CoinCommit.Snapshot.Window

/-!
# Snapshots

A snapshot of a source over a window is the sorted list of the leaves of the
live outputs with a positive amount in records whose height lies in the window.
Its tally accounts for everything the scan came across.

## Main definitions

* `Snapshot`: A window, the leaves and the tally.
* `Snapshot.collect`: The snapshot of a source.
* `Snapshot.ofLeaves`: The snapshot of given leaves.
* `Snapshot.proveLeaf?`: The first place of a leaf with its path.
-/

namespace CoinCommit

/-- What a scan came across: records, live outputs of records in the window, those outside it,
    those without a positive amount, the leaves taken, and the values that could not be read. -/
structure Tally where
  recordsScanned : Nat
  outputsSeen : Nat
  outsideWindow : Nat
  unspendable : Nat
  included : Nat
  malformedSkipped : Nat
deriving DecidableEq

/-- The leaves of a window with their tally. -/
structure Snapshot where
  window : Window
  leaves : LeafList
  tally : Tally

namespace Snapshot

/-- The live outputs of the records whose height lies in a window. -/
def outputsWithin (w : Window) (records : List CoinRecord) : List Utxo :=
  (records.filter fun r => w.contains r.height).flatMap CoinRecord.utxos

/-- The live outputs of the records whose height lies outside a window. -/
def outputsBeyond (w : Window) (records : List CoinRecord) : List Utxo :=
  (records.filter fun r => !w.contains r.height).flatMap CoinRecord.utxos

/-- The snapshot of what a scan yields. -/
def ofScan (w : Window) (s : Scan) : Snapshot :=
  let seen := outputsWithin w s.records
  let leaves := seen.filterMap Utxo.leaf?
  { window := w
    leaves := LeafList.ofList leaves
    tally :=
      { recordsScanned := s.records.length
        outputsSeen := seen.length
        outsideWindow := (outputsBeyond w s.records).length
        unspendable := seen.countP fun u => !u.isSpendable
        included := leaves.length
        malformedSkipped := s.malformed } }

/-- The snapshot of a source over a window; a failing scan is its only fault. -/
def collect (source : Source) (w : Window) : Except Fault Snapshot := do
  let scan ← source.scan
  return ofScan w scan

/-- The snapshot of given leaves, of which nothing was scanned. -/
def ofLeaves (w : Window) (leaves : List Bytes32) : Snapshot where
  window := w
  leaves := LeafList.ofList leaves
  tally := ⟨0, 0, 0, 0, leaves.length, 0⟩

/-- The commitment to the leaves. -/
def root (s : Snapshot) : Root := s.leaves.root

/-- The first place of a leaf with the path from there. -/
def proveLeaf? (s : Snapshot) (leaf : Bytes32) : Option (Nat × Path) := do
  let i ← s.leaves.indexOf? leaf
  let path ← s.leaves.prove? i
  return (i, path)

end Snapshot

end CoinCommit
