import CoinCommit.Bytes.Basic
import CoinCommit.Text.Quoted
import CoinCommit.Text.Utf8

/-!
# Hexadecimal Text

Byte strings are written as two digits a byte, in lower case. Reading accepts
both cases and nothing else. A text is read as the bytes of its UTF-8 form, so
a character outside ASCII is refused at its first byte, and positions count
bytes. An odd number of digits is reported before any wrong digit.

## Main definitions

* `Hex.encode`: The digits of a byte string.
* `Hex.decode`: The byte string with these digits.
* `Hex.decode32`: The same for exactly 32 bytes.
* `HexError`, `Hex32Error`: What is wrong with a text that is refused.

## Theorems

* `Hex.decode_encode`, `Hex.decode32_encode`: Bytes are read back from their
  digits.
-/

namespace CoinCommit

/-- Why a text is not the digits of a byte string. -/
inductive HexError where
  | oddLength
  | badDigit (byte : UInt8) (position : Nat)
deriving DecidableEq

/-- The text of the error; a byte is shown as the character of that number. -/
def HexError.message : HexError → String
  | .oddLength => "Odd number of digits"
  | .badDigit byte position =>
      "Invalid character " ++ Quoted.char (Char.ofNat byte.toNat) ++ " at position " ++
        Nat.repr position

/-- Why a text is not the digits of 32 bytes. -/
inductive Hex32Error where
  | notHex (e : HexError)
  | wrongLength (length : Nat)
deriving DecidableEq

/-- The text of the error, after the name of the value that was read. -/
def Hex32Error.message (name : String) : Hex32Error → String
  | .notHex e => name ++ ": " ++ e.message
  | .wrongLength length => name ++ ": expected 32 bytes, got " ++ Nat.repr length

namespace Hex

/-- The digit of a number below 16. -/
def digit (n : Nat) : Char :=
  if n < 10 then Char.ofNat (48 + n) else Char.ofNat (87 + n)

/-- The values of the digits of a byte string, two a byte. -/
def values (bs : Bytes) : List Nat := bs.flatMap fun b => [b.toNat / 16, b.toNat % 16]

/-- The digits of a byte string. -/
def encode (bs : Bytes) : String := String.ofList ((values bs).map digit)

/-- The value of an ASCII digit of either case. -/
def value? (b : UInt8) : Option Nat :=
  if 48 ≤ b && b ≤ 57 then some (b.toNat - 48)
  else if 97 ≤ b && b ≤ 102 then some (b.toNat - 87)
  else if 65 ≤ b && b ≤ 70 then some (b.toNat - 55)
  else none

/-- The value of the digit at a position. -/
def valueAt (b : UInt8) (position : Nat) : Except HexError Nat :=
  match value? b with
  | some v => .ok v
  | none => .error (.badDigit b position)

/-- Bytes from the values of their digits. -/
def join : List Nat → Bytes
  | high :: low :: rest => UInt8.ofNat (16 * high + low) :: join rest
  | _ => []

/-- The byte string whose digits are the bytes of a text. -/
def decodeBytes (text : Bytes) : Except HexError Bytes :=
  if text.length % 2 = 1 then .error .oddLength
  else do
    let values ← text.zipIdx.mapM fun entry => valueAt entry.1 entry.2
    return join values

/-- The byte string with these digits. -/
def decode (text : String) : Except HexError Bytes := decodeBytes (Utf8.encode text)

/-- The 32 bytes with these digits. -/
def decode32 (text : String) : Except Hex32Error Bytes32 := do
  let bs ← (decode text).mapError .notHex
  match Bytes32.ofBytes? bs with
  | some b => return b
  | none => throw (.wrongLength bs.length)

/-- A digit is one byte, which has the value that was written. -/
theorem value?_digit : ∀ n, n < 16 →
    ∃ b : UInt8, String.utf8EncodeChar (digit n) = [b] ∧ value? b = some n := by
  intro n hn
  -- There are sixteen digits, and each is tried.
  have h : n = 0 ∨ n = 1 ∨ n = 2 ∨ n = 3 ∨ n = 4 ∨ n = 5 ∨ n = 6 ∨ n = 7 ∨ n = 8 ∨ n = 9 ∨
    n = 10 ∨ n = 11 ∨ n = 12 ∨ n = 13 ∨ n = 14 ∨ n = 15 := by omega
  rcases h with rfl | rfl | rfl | rfl | rfl | rfl | rfl | rfl | rfl | rfl | rfl | rfl | rfl |
    rfl | rfl | rfl
  all_goals exact ⟨_, rfl, rfl⟩

/-- Pairs of values give back the bytes they were taken from. -/
theorem join_values (bs : Bytes) : join (values bs) = bs := by
  induction bs with
  | nil => rfl
  | cons b bs ih =>
      -- The two halves of a byte make up the byte.
      have hb : UInt8.ofNat (16 * (b.toNat / 16) + b.toNat % 16) = b := by
        rw [Nat.div_add_mod]
        exact UInt8.ofNat_toNat
      show UInt8.ofNat (16 * (b.toNat / 16) + b.toNat % 16) :: join (values bs) = b :: bs
      rw [hb, ih]

/-- Bytes that are all digits are read as their values. -/
theorem mapM_valueAt {bs : Bytes} {ns : List Nat} {k : Nat} (h : bs.map value? = ns.map some) :
    (bs.zipIdx k).mapM (fun entry => valueAt entry.1 entry.2) = .ok ns := by
  induction bs generalizing ns k with
  | nil =>
      cases ns with
      | nil => rfl
      | cons n ns => simp at h
  | cons b bs ih =>
      cases ns with
      | nil => simp at h
      | cons n ns =>
          simp only [List.map_cons, List.cons.injEq] at h
          rw [List.zipIdx_cons, List.mapM_cons, ih h.2]
          simp only [valueAt, h.1]
          rfl

/-- The digits of a byte string have the values they were written for. -/
theorem map_value?_encode (bs : Bytes) :
    (Utf8.encode (encode bs)).map value? = (values bs).map some := by
  rw [encode, Utf8.encode_ofList]
  induction bs with
  | nil => rfl
  | cons b bs ih =>
      -- Both digits of a byte are below sixteen.
      have hb := b.toNat_lt
      obtain ⟨x, hx, hvx⟩ := value?_digit (b.toNat / 16) (by omega)
      obtain ⟨y, hy, hvy⟩ := value?_digit (b.toNat % 16) (by omega)
      simp only [values, List.flatMap_cons, List.flatMap_append, List.flatMap_nil, List.append_nil,
        List.map_append, hx, hy, List.map_cons, List.map_nil, hvx, hvy] at ih ⊢
      rw [ih]
      rfl

theorem length_values (bs : Bytes) : (values bs).length = 2 * bs.length := by
  induction bs with
  | nil => rfl
  | cons b bs ih =>
      simp only [values, List.flatMap_cons, List.length_append, List.length_cons,
        List.length_nil] at ih ⊢
      omega

/-- A byte string is read back from its digits. -/
theorem decode_encode (bs : Bytes) : decode (encode bs) = .ok bs := by
  have hm := map_value?_encode bs
  -- There are two digits a byte, so their number is even.
  have hlen : (Utf8.encode (encode bs)).length = 2 * bs.length := by
    rw [← length_values, ← List.length_map value?, hm, List.length_map]
  rw [decode, decodeBytes, if_neg (by omega), mapM_valueAt hm]
  show Except.ok (join (values bs)) = .ok bs
  rw [join_values]

theorem decode32_encode (b : Bytes32) : decode32 (encode b.bytes) = .ok b := by
  rw [decode32, decode_encode]
  show (match Bytes32.ofBytes? b.bytes with
    | some b => Except.ok b
    | none => Except.error (Hex32Error.wrongLength b.bytes.length)) = .ok b
  rw [Bytes32.ofBytes?_bytes]

end Hex

end CoinCommit
