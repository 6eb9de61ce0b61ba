import CoinCommit.Proofs.Claim.Partition
import CoinCommit.Proofs.Wallet.Ownership

/-!
# Claims That Are Accepted

Whoever receives a claim knows the output and the destination, makes the spend
of them once more and checks the authorisation against the script. The ring that
has signed came to the key another way: the script named a key, and under it lay
a secret. That the two meet is due to the ring, in which a secret lies under its
own public key, and to the spend, which is the same on both sides.

What is left to the scheme is that it signs at all: that a signature has the
length of one and holds under the public key of its secret. This is asked of the
secrets of the ring and of the digests they sign, and of nothing else, so that
it can be checked for a ring and a list of outputs.

## Main definitions

* `SignatureScheme.Signs`: A signature that is made holds.
* `KeyRing.claimable`: The outputs of a list that a ring claims.
* `Claim.Accepted`: A claim that the destination accepts, but under no script of
  another kind and with no authorisation of another length.

## Theorems

* `KeyRing.sign_eq_ok_iff`, `Spend.isAuthorized_iff`: How the two sides come to
  the key.
* `KeyRing.isAuthorized_of_sign`: What a ring signs is accepted.
* `KeyRing.claims_accepted`: So is every claim of a batch.
-/

namespace CoinCommit

/-- A signature of the message has the length of one, and holds under the public key of the
    secret. -/
structure SignatureScheme.Signs (scheme : SignatureScheme) (secret : Bytes32) (message : Bytes) :
    Prop where
  length : (scheme.sign secret message).length = signatureLength
  holds : scheme.verify (scheme.publicKey secret) message (scheme.sign secret message) = true

/-- The claim has the data of the output, and the destination accepts it for the spend of this
    output; under a script that names no key it would not, nor would it accept an authorisation
    of another length. -/
structure Claim.Accepted (c : Claim) (scheme : SignatureScheme) (destination : Bytes) (u : Utxo) :
    Prop extends c.IsOf u where
  accepted : (Spend.ofUtxo u destination).isAuthorized scheme c.script c.authorization = true
  script_kind : ∀ script : Bytes, ¬(script.length = 33 ∧ script.head? = some 0x01) →
    (Spend.ofUtxo u destination).isAuthorized scheme script c.authorization = false
  authorization_length : ∀ authorization : Bytes, authorization.length ≠ 64 →
    (Spend.ofUtxo u destination).isAuthorized scheme c.script authorization = false

variable {scheme : SignatureScheme}

namespace Spend

variable {spend : Spend} {script authorization : Bytes}

/-- An authorisation is accepted under the key that the script names. -/
theorem isAuthorized_iff :
    spend.isAuthorized scheme script authorization = true ↔
      ∃ key, script = KeyScript.encode key ∧ authorization.length = signatureLength ∧
        scheme.verify key spend.digest.bytes authorization = true := by
  rw [isAuthorized]
  constructor
  · intro h
    rcases hkey : KeyScript.decode? script with _ | key
    · rw [hkey] at h
      cases h
    · simp only [hkey, Bool.and_eq_true, decide_eq_true_eq] at h
      exact ⟨key, KeyScript.decode?_eq_some_iff.mp hkey, h.1, h.2⟩
  · rintro ⟨key, hscript, hlength, hholds⟩
    simp only [KeyScript.decode?_eq_some_iff.mpr hscript, hlength, hholds, decide_true,
      Bool.and_true]

theorem isAuthorized_eq_false_of_script (h : ¬(script.length = 33 ∧ script.head? = some 0x01)) :
    spend.isAuthorized scheme script authorization = false := by
  -- An accepted authorisation would have a script that names a key.
  refine Bool.eq_false_iff.mpr fun hauthorized => ?_
  rcases isAuthorized_iff.mp hauthorized with ⟨key, hscript, _⟩
  refine h (KeyScript.isSome_decode?_iff.mp ?_)
  rw [KeyScript.decode?_eq_some_iff.mpr hscript, Option.isSome_some]

theorem isAuthorized_eq_false_of_length (h : authorization.length ≠ signatureLength) :
    spend.isAuthorized scheme script authorization = false := by
  refine Bool.eq_false_iff.mpr fun hauthorized => ?_
  rcases isAuthorized_iff.mp hauthorized with ⟨_, _, hlength, _⟩
  exact h hlength

end Spend

namespace KeyRing

variable {ring : KeyRing scheme} {spend : Spend} {authorization : Bytes}

/-- A ring signs with the secret under the key that the script names. -/
theorem sign_eq_ok_iff :
    ring.sign spend = .ok authorization ↔
      ∃ key secret, spend.script = KeyScript.encode key ∧ ring.secret? key = some secret ∧
        authorization = scheme.sign secret spend.digest.bytes := by
  rw [sign]
  constructor
  · intro h
    rcases hkey : KeyScript.decode? spend.script with _ | key
    · -- The script names no key.
      rw [hkey] at h
      cases h
    -- The ring holds no secret under it.
    rcases hsecret : ring.secret? key with _ | secret
    · simp only [hkey, hsecret] at h
      cases h
    · simp only [hkey, hsecret] at h
      cases h
      exact ⟨key, secret, KeyScript.decode?_eq_some_iff.mp hkey, hsecret, rfl⟩
  · rintro ⟨key, secret, hscript, hsecret, rfl⟩
    simp only [KeyScript.decode?_eq_some_iff.mpr hscript, hsecret]

theorem isOk_sign (ring : KeyRing scheme) (spend : Spend) :
    (ring.sign spend).isOk = ring.owns spend.script := by
  by_cases h : ring.owns spend.script = true
  · rcases sign_of_owns h with ⟨authorization, hsign⟩
    rw [hsign, h]
    rfl
  · have hforeign := Bool.eq_false_iff.mpr h
    rw [sign_of_not_owns hforeign, hforeign]
    rfl

/-- What a ring signs is accepted under the script, if its secrets sign. -/
theorem isAuthorized_of_sign (h : ring.sign spend = .ok authorization)
    (hsigns : ∀ p ∈ ring.pairs, scheme.Signs p.secret spend.digest.bytes) :
    spend.isAuthorized scheme spend.script authorization = true := by
  rcases sign_eq_ok_iff.mp h with ⟨key, secret, hscript, hsecret, rfl⟩
  have hpair := hsigns _ (secret?_eq_some_iff.mp hsecret)
  refine Spend.isAuthorized_iff.mpr ⟨key, hscript, hpair.length, ?_⟩
  -- The key that the script names is the public key of the secret under it.
  rw [← publicKey_of_secret? hsecret]
  exact hpair.holds

/-- The outputs of a list that hold something and are owned. -/
def claimable (ring : KeyRing scheme) (utxos : List Utxo) : List Utxo :=
  utxos.filter fun u => 0 < u.amount && ring.owns u.script

theorem claimable_eq (ring : KeyRing scheme) (destination : Bytes) (utxos : List Utxo) :
    ring.claimable utxos = utxos.filter fun u => ClaimBatch.accepts ring.sign destination u := by
  refine List.filter_congr fun u _ => ?_
  rw [ClaimBatch.accepts, isOk_sign]
  rfl

/-- The batch that a ring makes of a list has one claim for each output that the ring owns and that
    holds something, in the order of the list, and the destination accepts each of them. -/
theorem claims_accepted (ring : KeyRing scheme) (destination : Bytes) (utxos : List Utxo)
    (hsigns : ∀ p ∈ ring.pairs, ∀ u ∈ ring.claimable utxos,
      scheme.Signs p.secret (Spend.ofUtxo u destination).digest.bytes) :
    List.Forall₂ (fun u c => Claim.Accepted c scheme destination u) (ring.claimable utxos)
      (ClaimBatch.ofUtxos ring.sign destination utxos).claims := by
  -- A claim is signed over the spend of its output, which is the one that is checked.
  have hclaims := (ClaimBatch.partitions_ofUtxos ring.sign destination utxos).claims
  rw [← claimable_eq] at hclaims
  -- The claims come in the order of the outputs, each with its own.
  refine ((List.forall₂_and_left _ _).mpr ⟨fun _ hu => hu, hclaims⟩).imp ?_
  rintro u c ⟨hu, hc⟩
  have hauthorized := isAuthorized_of_sign hc.authorization fun p hp => hsigns p hp u hu
  exact {
    toIsOf := hc.toIsOf
    accepted := by
      rw [hc.script]
      exact hauthorized
    script_kind := fun _ h => Spend.isAuthorized_eq_false_of_script h
    authorization_length := fun _ h => Spend.isAuthorized_eq_false_of_length h }

end KeyRing

namespace OneKey

/-- The ring of one secret. -/
def ring : KeyRing ed25519 := KeyRing.ofSecrets [.fill 7]

/-- An output of a transaction with some script and amount. -/
def utxo (vout : UInt32) (script : Bytes) (amount : Int64) : Utxo :=
  ⟨.fill 1, vout, script, amount, 9⟩

/-- An output under the key of the ring. -/
def mine : Utxo := utxo 3 (KeyRing.scriptOf ed25519 (.fill 7)) 2500

/-- The output, and with it one under a script that names no key and one that holds nothing. -/
def utxos : List Utxo :=
  [utxo 0 [0x76, 0xa9] 70, mine, utxo 4 (KeyRing.scriptOf ed25519 (.fill 7)) 0]

theorem claimable_utxos : ring.claimable utxos = [mine] := by decide +kernel

/-- The signature of the one digest is made and checked. -/
theorem signs : ed25519.Signs (.fill 7) (Spend.ofUtxo mine [0x6a]).digest.bytes :=
  ⟨by decide +kernel, by decide +kernel⟩

end OneKey

/-- The claim on the one output is accepted, and would not be without its first byte. -/
theorem KeyRing.claims_accepted_of_one_key :
    ed25519.Signs (.fill 7) (Spend.ofUtxo OneKey.mine [0x6a]).digest.bytes ∧
      ∃ c, (ClaimBatch.ofUtxos OneKey.ring.sign [0x6a] OneKey.utxos).claims = [c] ∧
        (Spend.ofUtxo OneKey.mine [0x6a]).isAuthorized ed25519 OneKey.mine.script
            c.authorization = true ∧
          (Spend.ofUtxo OneKey.mine [0x6a]).isAuthorized ed25519 OneKey.mine.script.tail
            c.authorization = false := by
  have hsigns : ∀ p ∈ OneKey.ring.pairs, ∀ u ∈ OneKey.ring.claimable OneKey.utxos,
      ed25519.Signs p.secret (Spend.ofUtxo u [0x6a]).digest.bytes := by
    intro p hp u hu
    -- There is one pair and one output, and so one spend to be signed.
    rw [OneKey.claimable_utxos] at hu
    cases List.mem_singleton.mp hp
    cases List.mem_singleton.mp hu
    exact OneKey.signs
  have hclaims := claims_accepted OneKey.ring [0x6a] OneKey.utxos hsigns
  rw [OneKey.claimable_utxos, List.forall₂_cons_left_iff] at hclaims
  rcases hclaims with ⟨c, rest, hc, hrest, hlist⟩
  rw [List.forall₂_nil_left_iff.mp hrest] at hlist
  refine ⟨OneKey.signs, c, hlist, hc.script ▸ hc.accepted, hc.script_kind _ ?_⟩
  intro hkind
  have hlength : OneKey.mine.script.tail.length = 32 := Bytes32.length_eq _
  rw [hlength] at hkind
  exact absurd hkind.1 (by decide)

end CoinCommit
