import CoinCommit.Bytes.Basic

/-!
# Little-Endian Numbers

Fixed-width numbers are stored with their least significant byte first. A
number that needs more bytes than the width allows loses its high bytes, so
reading back what was written gives the number modulo a power of 256.

## Main definitions

* `LittleEndian.encode`: The low bytes of a number, least significant first.
* `LittleEndian.decode`: The number that such bytes stand for.
* `LittleEndian.capacity`: How many numbers a width can tell apart.
* `LittleEndian.ofUInt64`, `ofUInt32`, `ofInt64`: The bytes of machine words;
  a signed word is written in two's complement.
* `LittleEndian.toUInt64`, `toInt64`: The words read back.

## Theorems

* `length_encode`: A number takes exactly the width asked for.
* `decode_encode`: Reading back what was written.
* `encode_decode`: Writing what was read.
* `toUInt64_encode_of_lt`, `encode_toUInt64`: The same for words of fewer than
  eight bytes.
-/

namespace CoinCommit

namespace LittleEndian

/-- The lowest `width` bytes of a number, least significant first. -/
def encode : (width n : Nat) → Bytes
  | 0, _ => []
  | width + 1, n => UInt8.ofNat n :: encode width (n / 256)

/-- The number whose bytes, least significant first, are given. -/
def decode : Bytes → Nat
  | [] => 0
  | b :: bs => b.toNat + 256 * decode bs

/-- How many numbers fit into so many bytes. -/
def capacity : (width : Nat) → Nat
  | 0 => 1
  | width + 1 => 256 * capacity width

@[simp] theorem length_encode (width n : Nat) : (encode width n).length = width := by
  induction width generalizing n with
  | zero => rfl
  | succ width ih => simp only [encode, List.length_cons, ih]

theorem decode_encode (width n : Nat) : decode (encode width n) = n % capacity width := by
  induction width generalizing n with
  | zero => simp only [encode, decode, capacity, Nat.mod_one]
  | succ width ih =>
      rw [capacity, Nat.mod_mul]
      simp only [encode, decode, ih, UInt8.toNat_ofNat']

/-- A number that fits into the width is read back unchanged. -/
theorem decode_encode_of_lt {width n : Nat} (h : n < capacity width) :
    decode (encode width n) = n := by
  rw [decode_encode, Nat.mod_eq_of_lt h]

theorem encode_decode (bs : Bytes) : encode bs.length (decode bs) = bs := by
  induction bs with
  | nil => rfl
  | cons b bs ih =>
      have hb : b.toNat < 256 := b.toNat_lt
      -- The first byte is the remainder, and the others are the quotient.
      have hdiv : (b.toNat + 256 * decode bs) / 256 = decode bs := by omega
      have hmod : UInt8.ofNat (b.toNat + 256 * decode bs) = b := by
        apply UInt8.toNat_inj.mp
        rw [UInt8.toNat_ofNat']
        omega
      simp only [List.length_cons, encode, decode, hdiv, hmod, ih]

theorem decode_lt (bs : Bytes) : decode bs < capacity bs.length := by
  induction bs with
  | nil => simp only [decode, List.length_nil, capacity, Nat.zero_lt_one]
  | cons b bs ih =>
      have hb : b.toNat < 256 := b.toNat_lt
      simp only [decode, List.length_cons, capacity]
      omega

/-- The eight bytes of an unsigned 64-bit word. -/
def ofUInt64 (n : UInt64) : Bytes := encode 8 n.toNat

/-- The four bytes of an unsigned 32-bit word. -/
def ofUInt32 (n : UInt32) : Bytes := encode 4 n.toNat

/-- The eight bytes of a signed 64-bit word in two's complement. -/
def ofInt64 (n : Int64) : Bytes := ofUInt64 n.toUInt64

/-- The unsigned 64-bit word with these bytes. -/
def toUInt64 (bs : Bytes) : UInt64 := UInt64.ofNat (decode bs)

/-- The signed 64-bit word with these bytes in two's complement. -/
def toInt64 (bs : Bytes) : Int64 := (toUInt64 bs).toInt64

theorem toUInt64_ofUInt64 (n : UInt64) : toUInt64 (ofUInt64 n) = n := by
  apply UInt64.toNat_inj.mp
  -- Eight bytes have room for every word.
  have hn : n.toNat < capacity 8 := n.toNat_lt
  rw [toUInt64, ofUInt64, decode_encode, Nat.mod_eq_of_lt hn]
  exact congrArg UInt64.toNat UInt64.ofNat_toNat

/-- A word that fits into a width is read back from that many bytes. -/
theorem toUInt64_encode_of_lt {width : Nat} {n : UInt64} (h : n.toNat < capacity width) :
    toUInt64 (encode width n.toNat) = n := by
  rw [toUInt64, decode_encode_of_lt h]
  exact UInt64.ofNat_toNat

/-- Up to eight bytes are written as they were read. -/
theorem encode_toUInt64 {bs : Bytes} (h : bs.length ≤ 8) :
    encode bs.length (toUInt64 bs).toNat = bs := by
  have hcap : ∀ width, width ≤ 8 → capacity width ≤ capacity 8 := by
    -- There are nine widths, and none has more room than the last.
    intro width hw
    have hcases : width = 0 ∨ width = 1 ∨ width = 2 ∨ width = 3 ∨ width = 4 ∨ width = 5 ∨
      width = 6 ∨ width = 7 ∨ width = 8 := by omega
    rcases hcases with rfl | rfl | rfl | rfl | rfl | rfl | rfl | rfl | rfl <;> decide
  have hlt : decode bs < 18446744073709551616 := Nat.lt_of_lt_of_le (decode_lt bs) (hcap _ h)
  rw [toUInt64, UInt64.toNat_ofNat', Nat.mod_eq_of_lt hlt, encode_decode]

theorem toInt64_ofInt64 (n : Int64) : toInt64 (ofInt64 n) = n := by
  simp only [toInt64, ofInt64, toUInt64_ofUInt64]
  rfl

end LittleEndian

end CoinCommit
