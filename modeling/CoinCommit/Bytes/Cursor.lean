import CoinCommit.Bytes.LittleEndian
import CoinCommit.Fault

/-!
# Reading Bytes in Order

A `Cursor` is a place in a byte string: how many bytes lie before it and which
lie ahead. Reads take what they need from the front. A read that asks for more
than is left fails and takes nothing, so the cursor after a failure is still a
place in the same string; that is why the state survives an error here.

## Main definitions

* `Cursor`: The number of bytes read, and the bytes ahead.
* `Read`: A step that moves a cursor and may fail.
* `Cursor.takeBytes`: The next bytes, all of them or none.
* `Cursor.u8`, `u16`, `u32`, `u64`, `i64`, `bytes32`, `bytes`: The reads.

## Theorems

* `takeBytes_of_le`, `takeBytes_of_lt`: What a read does when the bytes are
  there and when they are not.
* `takeBytes_append`: A read of what is in front takes exactly that.
* `takeBytes_eq_ok`: What a read that succeeds has taken.
-/

namespace CoinCommit

/-- A place in a byte string. -/
structure Cursor where
  offset : Nat
  rest : Bytes
deriving DecidableEq

/-- What a read asks for. -/
inductive Item where
  | u8
  | u16
  | u32
  | u64
  | i64
  | bytes32
  | bytes
deriving DecidableEq, Repr

/-- The name of an item in an error's text. -/
def Item.name : Item → String
  | .u8 => "u8"
  | .u16 => "u16le"
  | .u32 => "u32le"
  | .u64 => "u64le"
  | .i64 => "i64le"
  | .bytes32 => "hash32"
  | .bytes => "bytes"

/-- Why a read fails: too few bytes are left for the item, or a length is written with more bytes
    than it needs. -/
inductive ReadError where
  | endOfInput (item : Item)
  | notMinimal
deriving DecidableEq, Repr

/-- The text of a failed read. -/
def ReadError.message : ReadError → String
  | .endOfInput item => "unexpected EOF (" ++ item.name ++ ")"
  | .notMinimal => "non-minimal CompactSize"

/-- A failed read as a fault of the bytes. -/
def ReadError.fault (e : ReadError) : Fault := ⟨.parse, e.message⟩

/-- A step that moves a cursor. After an error the cursor is where the step left it. -/
abbrev Read := EStateM ReadError Cursor

namespace Cursor

/-- The start of a byte string. -/
def start (bs : Bytes) : Cursor := ⟨0, bs⟩

/-- The number of bytes ahead. -/
def remaining (c : Cursor) : Nat := c.rest.length

/-- The next `n` bytes; an error that moves nothing if fewer are left. -/
def takeBytes (item : Item) (n : Nat) : Read Bytes := fun c =>
  let taken := c.rest.take n
  if taken.length = n then .ok taken ⟨c.offset + n, c.rest.drop n⟩
  else .error (.endOfInput item) c

theorem takeBytes_of_le (item : Item) {n : Nat} {c : Cursor} (h : n ≤ c.rest.length) :
    takeBytes item n c = .ok (c.rest.take n) ⟨c.offset + n, c.rest.drop n⟩ := by
  simp only [takeBytes, List.length_take, Nat.min_eq_left h, if_true]

theorem takeBytes_of_lt (item : Item) {n : Nat} {c : Cursor} (h : c.rest.length < n) :
    takeBytes item n c = .error (.endOfInput item) c := by
  -- As many as there are is fewer than were asked for.
  have hne : ¬ min n c.rest.length = n := by omega
  simp only [takeBytes, List.length_take, if_neg hne]

/-- Bytes in front of others are read and the others are left. -/
theorem takeBytes_append (item : Item) (k : Nat) (bs s : Bytes) :
    takeBytes item bs.length ⟨k, bs ++ s⟩ = .ok bs ⟨k + bs.length, s⟩ := by
  have h : bs.length ≤ (bs ++ s).length := by
    rw [List.length_append]
    exact Nat.le_add_right _ _
  rw [takeBytes_of_le item h, List.take_left, List.drop_left]

/-- What is read was in front, is as long as asked for, and is left behind. -/
theorem takeBytes_eq_ok {item : Item} {n : Nat} {c c' : Cursor} {bs : Bytes}
    (h : takeBytes item n c = .ok bs c') :
    bs.length = n ∧ c.rest = bs ++ c'.rest ∧ c'.offset = c.offset + n := by
  simp only [takeBytes] at h
  split at h
  · rename_i hlen
    cases h
    exact ⟨hlen, (List.take_append_drop n c.rest).symm, rfl⟩
  · cases h

/-- The next byte. -/
def u8 : Read UInt8 := do
  let bs ← takeBytes .u8 1
  return UInt8.ofNat (LittleEndian.decode bs)

theorem u8_cons (k : Nat) (b : UInt8) (s : Bytes) : u8 ⟨k, b :: s⟩ = .ok b ⟨k + 1, s⟩ := by
  -- One byte is its own number.
  have h : UInt8.ofNat (LittleEndian.decode [b]) = b := by
    rw [LittleEndian.decode, LittleEndian.decode, Nat.mul_zero, Nat.add_zero]
    exact UInt8.ofNat_toNat
  have ht := takeBytes_append .u8 k [b] s
  rw [List.length_singleton, List.singleton_append] at ht
  simp only [u8, bind, EStateM.bind, ht, pure, EStateM.pure, h]

/-- The next two bytes as a number. -/
def u16 : Read UInt16 := do
  let bs ← takeBytes .u16 2
  return UInt16.ofNat (LittleEndian.decode bs)

/-- The next four bytes as a number. -/
def u32 : Read UInt32 := do
  let bs ← takeBytes .u32 4
  return UInt32.ofNat (LittleEndian.decode bs)

/-- The next eight bytes as a number. -/
def u64 : Read UInt64 := do
  let bs ← takeBytes .u64 8
  return LittleEndian.toUInt64 bs

/-- The next eight bytes as a signed number. -/
def i64 : Read Int64 := do
  let bs ← takeBytes .i64 8
  return LittleEndian.toInt64 bs

/-- The next 32 bytes. -/
def bytes32 : Read Bytes32 := fun c =>
  match Bytes32.ofBytes? (c.rest.take 32) with
  | some b => .ok b ⟨c.offset + 32, c.rest.drop 32⟩
  | none => .error (.endOfInput .bytes32) c

/-- The next `n` bytes as they are. -/
def bytes (n : Nat) : Read Bytes := takeBytes .bytes n

end Cursor

end CoinCommit
