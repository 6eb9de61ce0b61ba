import CoinCommit.Curve.Edwards
import CoinCommit.Hash.Sha512

/-!
# Signatures

A signature scheme makes a public key of a secret, signs messages and checks
signatures. The library uses it through `SignatureScheme`, so that what is said
of claims holds of every scheme; `ed25519` is the one in use. Its check is the
strict one: the number in a signature is reduced, neither the key nor the point
in the signature has small order, and that point is compared byte by byte.

## Main definitions

* `SignatureScheme`: Public keys, signing and checking.
* `Ed25519.sign`, `Ed25519.verify`: The scheme in use.
* `ed25519`: The same as a scheme.
-/

namespace CoinCommit

/-- A signature scheme with secrets and public keys of 32 bytes. -/
structure SignatureScheme where
  publicKey : (secret : Bytes32) → Bytes32
  sign : (secret : Bytes32) → (message : Bytes) → Bytes
  verify : (key : Bytes32) → (message signature : Bytes) → Bool

namespace Ed25519

/-- The number that the low half of a secret's digest stands for, with its lowest three bits and
    its highest bit cleared and the one below set. -/
def secretScalar (digest : Bytes) : Nat :=
  let n := LittleEndian.decode (digest.take 32)
  -- The bit that is always set; the bit above it and all bits of its multiples are taken away.
  let top := Point.topBit / 2
  top + 8 * (n % top / 8)

/-- The public key of a secret. -/
def publicKey (secret : Bytes32) : Bytes32 :=
  (Point.mul (secretScalar (sha512 secret.bytes)) Point.base).encode

/-- The number that a digest stands for, below the order of the generator. -/
def scalarOf (digest : Bytes) : Nat := LittleEndian.decode digest % Point.baseOrder

/-- The challenge that ties a signature to a key and a message. -/
def challenge (commitment key : Bytes32) (message : Bytes) : Nat :=
  scalarOf (sha512 (commitment.bytes ++ key.bytes ++ message))

/-- The signature of a message: a point and a number, 32 bytes each. -/
def sign (secret : Bytes32) (message : Bytes) : Bytes :=
  let digest := sha512 secret.bytes
  let a := secretScalar digest
  -- The nonce hangs on the secret and the message alone, so signing needs no randomness.
  let r := scalarOf (sha512 (digest.drop 32 ++ message))
  let commitment := (Point.mul r Point.base).encode
  let k := challenge commitment (publicKey secret) message
  commitment.bytes ++ LittleEndian.encode 32 ((r + k * a) % Point.baseOrder)

/-- Whether a signature of two halves holds for a message under a key. -/
def verifyHalves (key : Bytes32) (message : Bytes) (commitment : Bytes32) (s : Nat) : Bool :=
  match Point.decode? key, Point.decode? commitment with
  | some a, some r =>
      -- The point is recomputed as `s B - k A` and compared without clearing the cofactor.
      s < Point.baseOrder && !r.isSmallOrder && !a.isSmallOrder &&
        (((Point.mul (challenge commitment key message) a.neg).add
          (Point.mul s Point.base)).encode = commitment)
  | _, _ => false

/-- Whether a signature holds for a message under a key. -/
def verify (key : Bytes32) (message signature : Bytes) : Bool :=
  match Bytes32.ofBytes? (signature.take 32), Bytes32.ofBytes? (signature.drop 32) with
  | some commitment, some s => verifyHalves key message commitment (LittleEndian.decode s.bytes)
  | _, _ => false

end Ed25519

/-- The signature scheme in use. -/
def ed25519 : SignatureScheme := ⟨Ed25519.publicKey, Ed25519.sign, Ed25519.verify⟩

end CoinCommit
