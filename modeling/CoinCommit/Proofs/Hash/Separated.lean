import CoinCommit.Hash.Sha3
import Mathlib.Data.List.Basic

/-!
# Strings That Do Not Collide

A digest says nothing about a string that collides with another, and no proof
can rule collisions out: there are more strings than digests. What is proved
about commitments therefore holds as long as the strings that were hashed on
both sides do not collide among each other. `Separated` says this of a given
list of strings, so a statement lists exactly those on which it depends, and
nothing is assumed of strings that nobody hashed.

## Main definitions

* `Separated`: No two different strings of a list have the same digest.
* `pairString`: The string that two digests are combined in.

## Theorems

* `Separated.of_subset`: Fewer strings collide no more.
* `pairString_injective`: Two digests can be told apart in their string.
* `Separated.hashPair_injective`: Equal combinations have equal parts.
-/

namespace CoinCommit

/-- No two different strings of the list have the same digest. -/
def Separated (strings : List Bytes) : Prop :=
  ∀ a ∈ strings, ∀ b ∈ strings, sha3 a = sha3 b → a = b

instance (strings : List Bytes) : Decidable (Separated strings) :=
  inferInstanceAs (Decidable (∀ a ∈ strings, ∀ b ∈ strings, sha3 a = sha3 b → a = b))

/-- Thirty-two equal bytes. -/
def Bytes32.fill (byte : UInt8) : Bytes32 := ⟨List.replicate 32 byte, List.length_replicate⟩

/-- The string whose digest combines two digests. -/
def pairString (left right : Bytes32) : Bytes := left.bytes ++ right.bytes

theorem hashPair_eq (left right : Bytes32) : hashPair left right = sha3 (pairString left right) :=
  rfl

theorem length_pairString (left right : Bytes32) : (pairString left right).length = 64 := by
  rw [pairString, List.length_append, left.length_eq, right.length_eq]

/-- Both parts have 32 bytes, so the string has one place at which it can be cut. -/
theorem pairString_injective {a b c d : Bytes32} (h : pairString a b = pairString c d) :
    a = c ∧ b = d := by
  -- The first parts are equally long, so the strings are cut at the same place.
  have hlen : a.bytes.length = c.bytes.length := by rw [a.length_eq, c.length_eq]
  have hparts := List.append_inj h hlen
  exact ⟨Bytes32.ext_bytes hparts.1, Bytes32.ext_bytes hparts.2⟩

namespace Separated

theorem of_subset {xs ys : List Bytes} (h : Separated ys) (hsub : xs ⊆ ys) : Separated xs := by
  intro a ha b hb he
  exact h a (hsub ha) b (hsub hb) he

/-- Equal combinations have equal parts. -/
theorem hashPair_injective {strings : List Bytes} (h : Separated strings) {a b c d : Bytes32}
    (hab : pairString a b ∈ strings) (hcd : pairString c d ∈ strings)
    (he : hashPair a b = hashPair c d) : a = c ∧ b = d :=
  pairString_injective (h _ hab _ hcd he)

end Separated

end CoinCommit
