import CoinCommit.Claim.Spend
import CoinCommit.Curve.Signature

/-!
# Scripts That Name a Key

The wallet owns outputs whose script is one byte, which names the signature
scheme, and a public key. Whoever receives a claim checks its authorisation
against the script alone.

## Main definitions

* `KeyScript.encode`, `KeyScript.decode?`: Scripts and the keys they name.
* `Spend.isAuthorized`: Whether an authorisation of a spend holds under a script.

## Theorems

* `KeyScript.decode?_eq_some_iff`: A key has one script.
* `KeyScript.isSome_decode?_iff`: What a script that names a key looks like.
-/

namespace CoinCommit

namespace KeyScript

/-- The first byte of a script that names a key. -/
def suite : UInt8 := 0x01

/-- The script that names a key. -/
def encode (key : Bytes32) : Bytes := suite :: key.bytes

/-- The key that a script names, if it is of this kind. -/
def decode? : Bytes → Option Bytes32
  | [] => none
  | b :: rest => if b = suite then Bytes32.ofBytes? rest else none

/-- A script names a key if it is the script of that key, and only then. -/
theorem decode?_eq_some_iff {script : Bytes} {key : Bytes32} :
    decode? script = some key ↔ script = encode key := by
  cases script with
  | nil => simp only [decode?, encode, reduceCtorEq]
  | cons b rest =>
      by_cases hb : b = suite
      · simp only [decode?, encode, hb, if_true, Bytes32.ofBytes?_eq_some_iff, List.cons.injEq,
          true_and]
      · simp only [decode?, encode, hb, if_false, reduceCtorEq, List.cons.injEq, false_and]

/-- A script names a key if it has the length and the first byte for it. -/
theorem isSome_decode?_iff {script : Bytes} :
    (decode? script).isSome = true ↔
      script.length = 33 ∧ script.head? = some 0x01 := by
  rw [Option.isSome_iff_exists]
  constructor
  · rintro ⟨key, hkey⟩
    rw [decode?_eq_some_iff.mp hkey]
    exact ⟨congrArg Nat.succ key.length_eq, rfl⟩
  · rintro ⟨hlength, hhead⟩
    cases script with
    | nil => cases hhead
    | cons b rest =>
        have hb : b = suite := Option.some.inj hhead
        refine ⟨⟨rest, Nat.succ.inj hlength⟩, decode?_eq_some_iff.mpr ?_⟩
        rw [hb, encode]

theorem encode_injective {a b : Bytes32} (h : encode a = encode b) : a = b :=
  Bytes32.ext_bytes (List.cons.inj h).2

end KeyScript

/-- The number of bytes of an authorisation. -/
def signatureLength : Nat := 64

/-- Whether an authorisation of a spend holds under a script: the script names a key, and the
    authorisation is a signature of the spend's digest under that key. -/
def Spend.isAuthorized (scheme : SignatureScheme) (spend : Spend) (script authorization : Bytes) :
    Bool :=
  match KeyScript.decode? script with
  | some key =>
      authorization.length = signatureLength &&
        scheme.verify key spend.digest.bytes authorization
  | none => false

end CoinCommit
