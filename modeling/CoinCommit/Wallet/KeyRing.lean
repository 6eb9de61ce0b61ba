import CoinCommit.Ascending
import CoinCommit.Claim.Batch
import CoinCommit.Wallet.Script

/-!
# Key Rings

A key ring holds secrets under their public keys, in ascending order of the
public keys, each once. It owns the scripts that name one of its keys and signs
spends of outputs with such scripts.

## Main definitions

* `KeyRing`: Secrets in the order of their public keys.
* `KeyRing.insert`, `KeyRing.generate`, `KeyRing.ofSecrets`: A ring with one
  more secret, given or drawn, and the ring of a list.
* `KeyRing.scripts`, `scriptFor?`, `owns`: The scripts of a ring.
* `KeyRing.sign`: The ring as a signer.

## Theorems

* `KeyRing.secret?_insert`: What one more secret does to look-ups.
-/

namespace CoinCommit

/-- A public key with its secret. -/
structure KeyPair where
  key : Bytes32
  secret : Bytes32
deriving DecidableEq

/-- Secrets under their public keys, in ascending order of these. -/
structure KeyRing (scheme : SignatureScheme) where
  pairs : List KeyPair
  sorted : Ascending KeyPair.key pairs
  derived : ∀ p ∈ pairs, p.key = scheme.publicKey p.secret

namespace KeyRing

variable {scheme : SignatureScheme}

/-- The ring without keys. -/
def empty : KeyRing scheme := ⟨[], List.Pairwise.nil, fun _ h => absurd h List.not_mem_nil⟩

/-- The ring with one more secret. -/
def insert (ring : KeyRing scheme) (secret : Bytes32) : KeyRing scheme where
  pairs := insertByKey KeyPair.key ⟨scheme.publicKey secret, secret⟩ ring.pairs
  sorted := ring.sorted.insertByKey _
  derived := by
    intro p hp
    rcases mem_insertByKey hp with rfl | hp
    · rfl
    · exact ring.derived p hp

/-- The secret that a source of random bytes gives: the first 32 of them. -/
def draw (random : Nat → UInt8) : Bytes32 :=
  ⟨(List.range 32).map random, by rw [List.length_map, List.length_range]⟩

/-- The ring with a secret that is drawn. -/
def generate (ring : KeyRing scheme) (random : Nat → UInt8) : KeyRing scheme :=
  ring.insert (draw random)

/-- The ring of a list of secrets. -/
def ofSecrets (secrets : List Bytes32) : KeyRing scheme := secrets.foldl insert empty

/-- The number of keys. -/
def length (ring : KeyRing scheme) : Nat := ring.pairs.length

/-- The secret under a public key. -/
def secret? (ring : KeyRing scheme) (key : Bytes32) : Option Bytes32 :=
  (ring.pairs.find? fun p => p.key = key).map KeyPair.secret

/-- The secret that is put in is found under its public key, and nothing else changes. -/
theorem secret?_insert (ring : KeyRing scheme) (secret key : Bytes32) :
    (ring.insert secret).secret? key =
      if key = scheme.publicKey secret then some secret else ring.secret? key := by
  simp only [secret?, insert, find?_insertByKey KeyPair.key]
  by_cases h : key = scheme.publicKey secret
  · simp only [h, if_true, Option.map_some]
  · simp only [h, if_false]

/-- The script of a secret. -/
def scriptOf (scheme : SignatureScheme) (secret : Bytes32) : Bytes :=
  KeyScript.encode (scheme.publicKey secret)

/-- The scripts of all secrets, in the order of their keys. -/
def scripts (ring : KeyRing scheme) : List Bytes :=
  ring.pairs.map fun p => scriptOf scheme p.secret

/-- The script of the secret under a public key. -/
def scriptFor? (ring : KeyRing scheme) (key : Bytes32) : Option Bytes :=
  (ring.secret? key).map (scriptOf scheme)

/-- Whether a script names one of the keys. -/
def owns (ring : KeyRing scheme) (script : Bytes) : Bool :=
  match KeyScript.decode? script with
  | some key => (ring.secret? key).isSome
  | none => false

/-- The ring as a signer: it signs a spend with the key that the output's script names. -/
def sign (ring : KeyRing scheme) : Signer := fun spend =>
  match KeyScript.decode? spend.script with
  | none => .error .unsupportedScript
  | some key =>
      match ring.secret? key with
      | none => .error .keyUnavailable
      | some secret => .ok (scheme.sign secret spend.digest.bytes)

end KeyRing

end CoinCommit
