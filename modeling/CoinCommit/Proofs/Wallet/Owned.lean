import CoinCommit.Proofs.Ledger.Outputs
import CoinCommit.Proofs.Lists.Fallible
import CoinCommit.Wallet.Outputs

/-!
# What a Wallet Owns

A wallet reads the table twice, once from end to end and once for each output
that it has found, and in the end sorts what is left. As long as the table stays
as it is, neither the second reading nor the sorting does anything: what a scan
comes across is live, and it comes in the order of the outpoints. So the list of
a wallet is what is held under its scripts, within the window.

## Main definitions

* `KeyRing.OwnsWithin`: An output that is held and owned, within a window.

## Theorems

* `Table.isUnspent_of_holds`: A look-up finds live what is held.
* `KeyRing.mem_ownedOutputs_iff`: Which outputs a scan finds for the wallet.
* `KeyRing.ascending_ownedOutputs`: It finds them in the order of outpoints.
* `KeyRing.unspentOutputs_table`: They are what the wallet lists.
-/

namespace CoinCommit

theorem Table.isUnspent_of_holds {t : Table} {u : Utxo} (h : t.Holds u) :
    t.source.isUnspent u.outpoint = .ok true := by
  rcases h with ⟨r, output, hget, hout, _⟩
  have hlive : r.isPruned = false := by
    simpa only [Bool.not_eq_true] using CoinRecord.not_isPruned_of_output? hout
  have hcoin : t.source.coin u.outpoint.txid = .ok (some r) :=
    congrArg Except.ok (unspentCoin?_eq_some_iff.mpr ⟨hget, hlive⟩)
  have hslot : r.output? u.outpoint.vout = some output := hout
  rw [Source.isUnspent, hcoin]
  change Except.ok (r.output? u.outpoint.vout).isSome = _
  rw [hslot, Option.isSome_some]

namespace KeyRing

variable {scheme : SignatureScheme} {ring : KeyRing scheme} {w : Window} {t : Table} {u : Utxo}

/-- The output is live in a stored record, within the window, and the ring owns its script. -/
structure OwnsWithin (ring : KeyRing scheme) (w : Window) (t : Table) (u : Utxo) : Prop where
  held : t.Holds u
  within : w.contains u.height = true
  owned : ring.owns u.script = true

theorem mem_ownedOutputs_iff :
    u ∈ ring.ownedOutputs w t.scanCoins.records ↔ ring.OwnsWithin w t u := by
  rw [ownedOutputs, List.mem_filter]
  -- What a scan comes across within the window is what the table holds there.
  constructor
  · rintro ⟨hu, howned⟩
    rcases (Table.mem_outputsAt_iff w.contains).mp hu with ⟨hheld, hwithin⟩
    exact ⟨hheld, hwithin, howned⟩
  · intro h
    exact ⟨(Table.mem_outputsAt_iff w.contains).mpr ⟨h.held, h.within⟩, h.owned⟩

theorem ascending_ownedOutputs (ring : KeyRing scheme) (w : Window) (t : Table) :
    (ring.ownedOutputs w t.scanCoins.records).Pairwise fun a b => a.outpoint < b.outpoint :=
  (Table.ascending_outputsAt t w.contains).filter _

/-- A table that does not change is not read twice to any effect. -/
theorem unspentOutputs_table (ring : KeyRing scheme) (w : Window) (t : Table) :
    ring.unspentOutputs w t.source = .ok (ring.ownedOutputs w t.scanCoins.records) := by
  -- Every output that was found is found live again, and the list is in order already.
  have hunspent : ∀ u ∈ ring.ownedOutputs w t.scanCoins.records,
      (t.source.isUnspent u.outpoint).mapError Fault.ofWallet = .ok true := by
    intro u hu
    rw [Table.isUnspent_of_holds (mem_ownedOutputs_iff.mp hu).held]
    rfl
  have hsorted : (ring.ownedOutputs w t.scanCoins.records).mergeSort
      (fun a b => a.outpoint.before b.outpoint) = ring.ownedOutputs w t.scanCoins.records :=
    List.mergeSort_of_pairwise
      ((ascending_ownedOutputs ring w t).imp fun hlt => Outpoint.before_iff.mpr (Or.inl hlt))
  have hscan : t.source.scan.mapError Fault.ofWallet = .ok t.scanCoins := rfl
  simp only [unspentOutputs, hscan, bind, Except.bind, filterM_of_ok hunspent, List.filter_true]
  exact congrArg Except.ok hsorted

end KeyRing

end CoinCommit
