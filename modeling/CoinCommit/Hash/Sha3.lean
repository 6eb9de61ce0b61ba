import CoinCommit.Bytes.LittleEndian
import CoinCommit.Hash.Keccak

/-!
# SHA3-256

The sponge of FIPS 202 with blocks of 136 bytes: the message is padded to a
whole number of blocks, each block is added to the first 17 lanes of the state
and the state is permuted, and the first four lanes of the last state are the
digest. `hashPair` is the hash of two digests written one after the other,
the only combination of digests that this library uses.

## Main definitions

* `Sha3.padded`: A message with its padding, as whole blocks of bytes.
* `Sha3.absorb`: The state after a run of lanes.
* `sha3`: The digest of a message.
* `hashPair`: The digest of two digests.
-/

namespace CoinCommit

namespace Sha3

/-- The number of bytes of a block. -/
def rate : Nat := 136

/-- The padding of a message of a given length: a domain byte, zeros and a last bit, which share
    one byte when only one is missing. -/
def padding (length : Nat) : Bytes :=
  match rate - length % rate with
  | 0 => []
  | 1 => [0x86]
  | k + 2 => 0x06 :: List.replicate k 0 ++ [0x80]

/-- A message with its padding. -/
def padded (message : Bytes) : Bytes := message ++ padding message.length

/-- The lanes of a byte string, eight bytes each; bytes short of a lane are left out. -/
def lanesOf : Bytes → List UInt64
  | b0 :: b1 :: b2 :: b3 :: b4 :: b5 :: b6 :: b7 :: rest =>
      (b0.toUInt64 ||| (b1.toUInt64 <<< 8) ||| (b2.toUInt64 <<< 16) ||| (b3.toUInt64 <<< 24) |||
        (b4.toUInt64 <<< 32) ||| (b5.toUInt64 <<< 40) ||| (b6.toUInt64 <<< 48) |||
        (b7.toUInt64 <<< 56)) :: lanesOf rest
  | _ => []

/-- The state after the blocks that these lanes fill; lanes short of a block are left out. -/
def absorb (s : Keccak.State) : List UInt64 → Keccak.State
  | a0 :: b0 :: c0 :: d0 :: e0 :: a1 :: b1 :: c1 :: d1 :: e1 :: a2 :: b2 :: c2 :: d2 :: e2 ::
      a3 :: b3 :: rest =>
      absorb (Keccak.permute (s.xor ⟨⟨a0, b0, c0, d0, e0⟩, ⟨a1, b1, c1, d1, e1⟩,
        ⟨a2, b2, c2, d2, e2⟩, ⟨a3, b3, 0, 0, 0⟩, Keccak.Row.zero⟩)) rest
  | _ => s

end Sha3

/-- The SHA3-256 digest of a message. -/
def sha3 (message : Bytes) : Bytes32 :=
  let s := Sha3.absorb Keccak.State.zero (Sha3.lanesOf (Sha3.padded message))
  -- A digest is shorter than a block, so nothing is squeezed out after it.
  ⟨LittleEndian.ofUInt64 s.r0.a ++ LittleEndian.ofUInt64 s.r0.b ++
      LittleEndian.ofUInt64 s.r0.c ++ LittleEndian.ofUInt64 s.r0.d, by
    simp only [LittleEndian.ofUInt64, List.length_append, LittleEndian.length_encode]⟩

/-- The digest of two digests, the left one first. -/
def hashPair (left right : Bytes32) : Bytes32 := sha3 (left.bytes ++ right.bytes)

end CoinCommit
