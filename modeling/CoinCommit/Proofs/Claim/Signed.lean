import Mathlib.Data.List.Forall2
import CoinCommit.Wallet.KeyRing

/-!
# Outputs That Are Signed For

A key ring signs the spend of every output that it owns, and it looks at nothing
else. So a batch of its own outputs is cut in two by their amounts: what holds
something becomes a claim, in the order of the list, and what is skipped is
skipped for the one reason that it holds nothing.

## Main definitions

* `Claim.IsOf`: A claim with the data of an output.
* `ClaimBatch.Signs`: A signer that authorises all that can be claimed.

## Theorems

* `KeyRing.sign_of_owns`: An owned output is signed for.
* `ClaimBatch.forall₂_claims`, `ClaimBatch.skipped_eq`: The two parts of a
  batch.
-/

namespace CoinCommit

/-- The claim has the data of the output, and its leaf. -/
structure Claim.IsOf (c : Claim) (u : Utxo) : Prop where
  txid : c.txid = u.txid
  vout : c.vout = u.vout
  script : c.script = u.script
  amount : c.amount = u.amount
  leaf : c.leaf = Leaf.hash u.txid u.script u.amount

theorem KeyRing.sign_of_owns {scheme : SignatureScheme} {ring : KeyRing scheme} {spend : Spend}
    (h : ring.owns spend.script = true) :
    ∃ authorization, ring.sign spend = .ok authorization := by
  -- To own a script is to hold the secret key that it names.
  rw [owns] at h
  rcases hkey : KeyScript.decode? spend.script with _ | key
  · rw [hkey] at h
    cases h
  · rw [hkey] at h
    rcases Option.isSome_iff_exists.mp h with ⟨secret, hsecret⟩
    refine ⟨scheme.sign secret spend.digest.bytes, ?_⟩
    simp only [sign, hkey, hsecret]

namespace ClaimBatch

variable {signer : Signer} {destination : Bytes}

/-- The signer authorises the spends of the outputs that hold something. -/
def Signs (signer : Signer) (destination : Bytes) (utxos : List Utxo) : Prop :=
  ∀ u ∈ utxos, u.isSpendable = true →
    ∃ authorization, signer (Spend.ofUtxo u destination) = .ok authorization

theorem ofUtxos_cons (u : Utxo) (utxos : List Utxo) :
    ofUtxos signer destination (u :: utxos) =
      cons (attempt signer destination u) (ofUtxos signer destination utxos) := rfl

theorem attempt_of_not_isSpendable {u : Utxo} (h : ¬ u.isSpendable = true) :
    attempt signer destination u = .error ⟨u.outpoint, .notSpendable⟩ := by
  rw [attempt, if_neg h]

theorem exists_attempt_of_signed {u : Utxo} (h : u.isSpendable = true) {authorization : Bytes}
    (hsigned : signer (Spend.ofUtxo u destination) = .ok authorization) :
    ∃ c, attempt signer destination u = .ok c ∧ c.IsOf u := by
  refine ⟨⟨u.txid, u.vout, u.script, u.amount, Leaf.hash u.txid u.script u.amount,
    authorization⟩, ?_, ⟨rfl, rfl, rfl, rfl, rfl⟩⟩
  rw [attempt, if_pos h]
  simp only [hsigned]
  rfl

/-- The outputs that hold something are claimed one by one. -/
theorem forall₂_claims {utxos : List Utxo} (h : Signs signer destination utxos) :
    List.Forall₂ (fun u c => Claim.IsOf c u) (utxos.filter Utxo.isSpendable)
      (ofUtxos signer destination utxos).claims := by
  -- The claims of a list are those of its first output and those of the rest.
  induction utxos with
  | nil => exact List.Forall₂.nil
  | cons u utxos ih =>
      have hrest := ih fun v hv => h v (List.mem_cons_of_mem u hv)
      rw [ofUtxos_cons]
      by_cases hu : u.isSpendable = true
      · rcases h u List.mem_cons_self hu with ⟨authorization, hsigned⟩
        -- An output that holds something is signed for, and so it is claimed.
        rcases exists_attempt_of_signed hu hsigned with ⟨c, hattempt, hc⟩
        rw [List.filter_cons_of_pos hu, hattempt]
        exact List.Forall₂.cons hc hrest
      · -- What is skipped leaves no trace among the claims.
        rw [List.filter_cons_of_neg hu, attempt_of_not_isSpendable hu]
        exact hrest

/-- The others are skipped, for the reason that they hold nothing. -/
theorem skipped_eq {utxos : List Utxo} (h : Signs signer destination utxos) :
    (ofUtxos signer destination utxos).skipped =
      (utxos.filter fun u => !u.isSpendable).map fun u => ⟨u.outpoint, .notSpendable⟩ := by
  induction utxos with
  | nil => rfl
  | cons u utxos ih =>
      have hrest := ih fun v hv => h v (List.mem_cons_of_mem u hv)
      rw [ofUtxos_cons, List.filter_cons]
      by_cases hu : u.isSpendable = true
      · rcases h u List.mem_cons_self hu with ⟨authorization, hsigned⟩
        -- It is claimed, and skips nothing.
        rcases exists_attempt_of_signed hu hsigned with ⟨c, hattempt, _⟩
        rw [hattempt, hu, Bool.not_true, if_neg Bool.false_ne_true]
        exact hrest
      · -- It holds nothing, and is skipped without asking the signer.
        have hfalse : u.isSpendable = false := Bool.eq_false_iff.mpr hu
        rw [attempt_of_not_isSpendable hu, hfalse, Bool.not_false, if_pos rfl, List.map_cons,
          ← hrest]
        rfl

end ClaimBatch

end CoinCommit
