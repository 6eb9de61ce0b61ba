import CoinCommit.Snapshot.Source
import CoinCommit.Snapshot.Window
import CoinCommit.Wallet.KeyRing

/-!
# The Outputs of a Wallet

A wallet lists the live outputs that its key ring owns among the records of a
window. It scans the source once, asks the source again for each output it
found, and keeps those that are still unspent, in the order of their outpoints.
A fault of the source becomes a fault of the wallet, with the source's fault as
its text.

## Main definitions

* `KeyRing.ownedOutputs`: What a scan finds.
* `KeyRing.unspentOutputs`: What is left after the look-ups, in order.
-/

namespace CoinCommit

/-- A fault of a source as the wallet reports it. -/
def Fault.ofWallet (f : Fault) : Fault := ⟨.wallet, f.display⟩

namespace KeyRing

variable {scheme : SignatureScheme}

/-- The live outputs of records in the window whose script the ring owns, in the order scanned. -/
def ownedOutputs (ring : KeyRing scheme) (w : Window) (records : List CoinRecord) : List Utxo :=
  ((records.filter fun r => w.contains r.height).flatMap CoinRecord.utxos).filter fun u =>
    ring.owns u.script

/-- The owned outputs that a look-up finds unspent, in the order of their outpoints. -/
def unspentOutputs (ring : KeyRing scheme) (w : Window) (source : Source) :
    Except Fault (List Utxo) := do
  let scan ← source.scan.mapError Fault.ofWallet
  -- The look-up has the last word: the source may have changed since it was scanned.
  let unspent ← (ring.ownedOutputs w scan.records).filterM fun u =>
    (source.isUnspent u.outpoint).mapError Fault.ofWallet
  return unspent.mergeSort fun a b => a.outpoint.before b.outpoint

/-- The claims on the unspent outputs. -/
def claims (ring : KeyRing scheme) (w : Window) (source : Source) (signer : Signer)
    (destination : Bytes) : Except Fault ClaimBatch := do
  let utxos ← ring.unspentOutputs w source
  return ClaimBatch.ofUtxos signer destination utxos

end KeyRing

end CoinCommit
