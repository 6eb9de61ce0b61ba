import CoinCommit.Bytes.CompactSize
import CoinCommit.Coin.Basic

/-!
# Stored Coin Records

A record is stored under a key of 33 bytes, a tag and the transaction id. The
value holds the height, a flag, the number of slots and the slots: a tag byte
each, and for a live output its amount and its script with the script's length
in front. Writing accepts every record; reading accepts exactly one form of a
record and only up to a number of slots and a length of scripts, and everything
else is refused with the place where it went wrong.

## Main definitions

* `CoinKey.encode`, `CoinKey.decode?`: Keys.
* `CoinRecord.encode`, `CoinRecord.decode`: Values.
* `CoinError`: Why a value is not a record.

## Theorems

* `CoinKey.decode?_eq_some_iff`: Exactly the keys of coins are read as such.
-/

namespace CoinCommit

namespace CoinKey

/-- The first byte of the key of a coin record. -/
def tag : UInt8 := 0x63

/-- The key of a transaction's record. -/
def encode (txid : Bytes32) : Bytes := tag :: txid.bytes

/-- The transaction whose record has this key; absent for keys of other kinds. -/
def decode? : Bytes → Option Bytes32
  | [] => none
  | b :: rest => if b = tag then Bytes32.ofBytes? rest else none

/-- A key is read as a transaction's if it is the key of that transaction, and only then. -/
theorem decode?_eq_some_iff {key : Bytes} {txid : Bytes32} :
    decode? key = some txid ↔ key = encode txid := by
  cases key with
  | nil => simp only [decode?, encode, reduceCtorEq]
  | cons b rest =>
      by_cases hb : b = tag
      · simp only [decode?, encode, hb, if_true, Bytes32.ofBytes?_eq_some_iff, List.cons.injEq,
          true_and]
      · simp only [decode?, encode, hb, if_false, reduceCtorEq, List.cons.injEq, false_and]

end CoinKey

/-- The place in a record at which a read fails. -/
inductive CoinPlace where
  | height
  | flags
  | count
  | slot (i : Nat)
  | amount (i : Nat)
  | scriptLength (i : Nat)
  | script (i : Nat)
deriving DecidableEq

/-- The name of a place in an error's text. -/
def CoinPlace.name : CoinPlace → String
  | .height => "coin height"
  | .flags => "coin flags"
  | .count => "coin output count"
  | .slot i => "coin slot " ++ Nat.repr i
  | .amount i => "coin slot " ++ Nat.repr i ++ " amount"
  | .scriptLength i => "coin slot " ++ Nat.repr i ++ " script len"
  | .script i => "coin slot " ++ Nat.repr i ++ " script"

/-- Why bytes are not the value of a coin record. -/
inductive CoinError where
  | unreadable (place : CoinPlace) (e : ReadError)
  | badFlag (byte : UInt8)
  | tooManySlots (count : UInt64)
  | badSlotTag (i : Nat) (byte : UInt8)
  | scriptTooLong (i : Nat) (length : UInt64)
  | trailing (count : Nat)
deriving DecidableEq

namespace CoinRecord

/-- The most slots that a stored record may have. -/
def maxSlots : UInt64 := 65536

/-- The longest script that a stored record may hold. -/
def maxScriptBytes : UInt64 := 10000

end CoinRecord

/-- The text of the error. -/
def CoinError.message : CoinError → String
  | .unreadable place e => place.name ++ ": " ++ e.fault.display
  | .badFlag byte => "coin flags: invalid coinbase byte " ++ Nat.repr byte.toNat
  | .tooManySlots count =>
      "coin output count " ++ Nat.repr count.toNat ++ " exceeds " ++
        Nat.repr CoinRecord.maxSlots.toNat
  | .badSlotTag i byte =>
      "coin slot " ++ Nat.repr i ++ ": invalid slot tag " ++ Nat.repr byte.toNat
  | .scriptTooLong i length =>
      "coin slot " ++ Nat.repr i ++ ": script length " ++ Nat.repr length.toNat ++ " exceeds " ++
        Nat.repr CoinRecord.maxScriptBytes.toNat
  | .trailing count => "coin record: " ++ Nat.repr count ++ " trailing bytes"

namespace CoinRecord

/-- The bytes of a slot. -/
def encodeSlot : Option Output → Bytes
  | none => [0]
  | some output =>
      1 :: LittleEndian.ofInt64 output.amount ++ CompactSize.ofLength output.script.length ++
        output.script

/-- The value under which a record is stored. -/
def encode (r : CoinRecord) : Bytes :=
  LittleEndian.ofUInt64 r.height ++ [if r.coinbase then 1 else 0] ++
    CompactSize.ofLength r.outputs.length ++ r.outputs.flatMap encodeSlot

/-- A step in reading a record. -/
abbrev ReadCoin := EStateM CoinError Cursor

/-- A read whose failure is reported for a place in the record. -/
def reading (place : CoinPlace) {α : Type} (read : Read α) : ReadCoin α :=
  EStateM.adaptExcept (CoinError.unreadable place) read

/-- Whether the record is of a coinbase transaction. -/
def readFlag : ReadCoin Bool := do
  let byte ← reading .flags Cursor.u8
  if byte = 0 then return false
  else if byte = 1 then return true
  else throw (.badFlag byte)

/-- The number of slots. -/
def readCount : ReadCoin Nat := do
  let (count, _) ← reading .count CompactSize.read
  -- The bound is checked before any slot is read.
  if maxSlots < count then throw (.tooManySlots count)
  return count.toNat

/-- The live output in slot `i`, after its tag. -/
def readOutput (i : Nat) : ReadCoin Output := do
  let amount ← reading (.amount i) Cursor.i64
  let (length, _) ← reading (.scriptLength i) CompactSize.read
  if maxScriptBytes < length then throw (.scriptTooLong i length)
  let script ← reading (.script i) (Cursor.bytes length.toNat)
  return ⟨amount, script⟩

/-- Slot `i`. -/
def readSlot (i : Nat) : ReadCoin (Option Output) := do
  let tag ← reading (.slot i) Cursor.u8
  if tag = 0 then return none
  else if tag = 1 then
    let output ← readOutput i
    return some output
  else throw (.badSlotTag i tag)

/-- The record of a transaction in front of the cursor. -/
def read (txid : Bytes32) : ReadCoin CoinRecord := do
  let height ← reading .height Cursor.u64
  let coinbase ← readFlag
  let count ← readCount
  let outputs ← (List.range count).mapM readSlot
  return ⟨txid, height, coinbase, outputs⟩

/-- The record of a transaction whose value is given. -/
def decode (txid : Bytes32) (value : Bytes) : Except CoinError CoinRecord :=
  match read txid (Cursor.start value) with
  | .ok r c => if c.rest = [] then .ok r else .error (.trailing c.remaining)
  | .error e _ => .error e

end CoinRecord

end CoinCommit
