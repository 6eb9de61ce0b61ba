import CoinCommit.Proofs.Bytes.SizeRows
import Mathlib.Algebra.Group.Nat.Defs

/-!
# How Reads End

A read at a place of a string ends in one of a few ways, and the bytes there
decide in which. A plain read takes a number of bytes that is known before it
looks at any. If they are there it gives their value and stops behind them, and if
not it stays where it was.

A number of variable width takes its tag first, and only the tag says how many
bytes are to follow. So there are three places where it can stop without a
value: before the tag, behind the tag if the payload is cut short, and behind the
payload if a shorter form would have done. Which tag has which payload is a table
of its own here, apart from the reader.

Each way is a constructor, which has the result in its index and the condition
on the string in its arguments. That the result of a read is one of them says
both how it ends and when.

## Main definitions

* `PlainRead`: A read that knows how many bytes it takes.
* `PlainRead.Means`: The value that bytes stand for.
* `PlainRead.Ends`: The two ways in which a plain read ends.
* `CompactSize.payload?`: The table of tags and their payloads.
* `CompactSize.Ends`: The ways in which the read of a number ends.

## Theorems

* `PlainRead.means_ofBytes`: Values keep every byte.
* `PlainRead.run_of_le`, `run_of_lt`: A plain read takes its bytes or stays.
* `PlainRead.ends`, `CompactSize.ends`: How reads at a place of a string end.
* `CompactSize.read_cons_eq`: The reader goes by the table.
-/

namespace CoinCommit

namespace Cursor

variable {α : Type} {data : Bytes} {k n : Nat}

/-- Before the end stands a byte, and behind it the next place. -/
theorem placeIn_of_lt (h : k < data.length) :
    placeIn data k = ⟨k, data[k] :: (placeIn data (k + 1)).rest⟩ := by
  rw [placeIn, List.drop_eq_getElem_cons h]
  rfl

theorem takeBytes_placeIn_of_le (item : Item) (h : k + n ≤ data.length) :
    takeBytes item n (placeIn data k) = .ok ((data.drop k).take n) (placeIn data (k + n)) := by
  have hleft : n ≤ (placeIn data k).rest.length := by
    rw [placeIn, List.length_drop]
    omega
  rw [takeBytes_of_le item hleft]
  simp only [placeIn, List.drop_drop]

theorem takeBytes_placeIn_of_lt (item : Item) (hk : k ≤ data.length) (h : data.length < k + n) :
    takeBytes item n (placeIn data k) = .error (.endOfInput item) (placeIn data k) := by
  refine takeBytes_of_lt item ?_
  rw [placeIn, List.length_drop]
  omega

theorem map_takeBytes_of_le (item : Item) (f : Bytes → α) (h : k + n ≤ data.length) :
    (takeBytes item n >>= fun bs => pure (f bs) : Read α) (placeIn data k) =
      .ok (f ((data.drop k).take n)) (placeIn data (k + n)) := by
  simp only [bind, EStateM.bind, takeBytes_placeIn_of_le item h]
  rfl

theorem map_takeBytes_of_lt (item : Item) (f : Bytes → α) (hk : k ≤ data.length)
    (h : data.length < k + n) :
    (takeBytes item n >>= fun bs => pure (f bs) : Read α) (placeIn data k) =
      .error (.endOfInput item) (placeIn data k) := by
  simp only [bind, EStateM.bind, takeBytes_placeIn_of_lt item hk h]

end Cursor

namespace LittleEndian

theorem capacity_eq_pow (width : Nat) : capacity width = 256 ^ width := by
  induction width with
  | zero => rfl
  | succ width ih => rw [capacity, ih, Nat.pow_succ, Nat.mul_comm]

/-- A number of at most eight bytes fits into a word. -/
theorem toNat_toUInt64 {bs : Bytes} (h : bs.length ≤ 8) : (toUInt64 bs).toNat = decode bs := by
  have hlt : decode bs < 2 ^ 64 :=
    calc
      decode bs < 256 ^ bs.length := capacity_eq_pow bs.length ▸ decode_lt bs
      _ ≤ 256 ^ 8 := Nat.pow_le_pow_right (by decide) h
      _ = 2 ^ 64 := by decide
  rw [toUInt64, UInt64.toNat_ofNat', Nat.mod_eq_of_lt hlt]

theorem eq_toUInt64_of_toNat {bs : Bytes} (h : bs.length ≤ 8) {n : UInt64}
    (hn : n.toNat = decode bs) : n = toUInt64 bs := by
  apply UInt64.toNat_inj.mp
  rw [hn, toNat_toUInt64 h]

end LittleEndian

/-- A read of so many bytes, whatever they are: as many as the kind of value has, or as many as are
    asked for. -/
inductive PlainRead where
  | u8
  | u16
  | u32
  | u64
  | i64
  | bytes32
  | bytes (n : USize)
deriving DecidableEq

namespace PlainRead

/-- What the read asks for. -/
def item : PlainRead → Item
  | .u8 => .u8
  | .u16 => .u16
  | .u32 => .u32
  | .u64 => .u64
  | .i64 => .i64
  | .bytes32 => .bytes32
  | .bytes _ => .bytes

/-- How many bytes the read takes. -/
def width : PlainRead → Nat
  | .u8 => 1
  | .u16 => 2
  | .u32 => 4
  | .u64 => 8
  | .i64 => 8
  | .bytes32 => 32
  | .bytes n => n.toNat

/-- What the read gives. -/
abbrev Value : PlainRead → Type
  | .u8 => UInt8
  | .u16 => UInt16
  | .u32 => UInt32
  | .u64 => UInt64
  | .i64 => Int64
  | .bytes32 => Bytes32
  | .bytes _ => Bytes

/-- The read of a cursor. -/
def run : (read : PlainRead) → Read read.Value
  | .u8 => Cursor.u8
  | .u16 => Cursor.u16
  | .u32 => Cursor.u32
  | .u64 => Cursor.u64
  | .i64 => Cursor.i64
  | .bytes32 => Cursor.bytes32
  | .bytes n => Cursor.bytes n.toNat

/-- Whether a value is the one that bytes stand for: numbers have their least byte first, signed
    ones are in two's complement, and byte strings stand for themselves. -/
def Means : (read : PlainRead) → Bytes → read.Value → Prop
  | .u8, bs, n => UInt8.toNat n = LittleEndian.decode bs
  | .u16, bs, n => UInt16.toNat n = LittleEndian.decode bs
  | .u32, bs, n => UInt32.toNat n = LittleEndian.decode bs
  | .u64, bs, n => UInt64.toNat n = LittleEndian.decode bs
  | .i64, bs, n => Int64.toInt n = Int.bmod (LittleEndian.decode bs) (2 ^ 64)
  | .bytes32, bs, b => Bytes32.bytes b = bs
  | .bytes _, bs, taken => taken = bs

/-- The value of as many bytes as the read takes. -/
def ofBytes : (read : PlainRead) → (bs : Bytes) → bs.length = read.width → read.Value
  | .u8, bs, _ => UInt8.ofNat (LittleEndian.decode bs)
  | .u16, bs, _ => UInt16.ofNat (LittleEndian.decode bs)
  | .u32, bs, _ => UInt32.ofNat (LittleEndian.decode bs)
  | .u64, bs, _ => LittleEndian.toUInt64 bs
  | .i64, bs, _ => LittleEndian.toInt64 bs
  | .bytes32, bs, h => ⟨bs, h⟩
  | .bytes _, bs, _ => bs

theorem decode_lt_of_length (read : PlainRead) {bs : Bytes} (h : bs.length = read.width) :
    LittleEndian.decode bs < 256 ^ read.width := by
  rw [← h, ← LittleEndian.capacity_eq_pow]
  exact LittleEndian.decode_lt bs

/-- No byte is lost in a value. -/
theorem means_ofBytes (read : PlainRead) (bs : Bytes) (h : bs.length = read.width) :
    read.Means bs (read.ofBytes bs h) := by
  -- A number below the capacity of its type is kept by the conversion.
  have hlt := decode_lt_of_length read h
  cases read with
  | u8 => exact (UInt8.toNat_ofNat' ..).trans (Nat.mod_eq_of_lt hlt)
  | u16 => exact (UInt16.toNat_ofNat' ..).trans (Nat.mod_eq_of_lt hlt)
  | u32 => exact (UInt32.toNat_ofNat' ..).trans (Nat.mod_eq_of_lt hlt)
  | u64 => exact LittleEndian.toNat_toUInt64 (Nat.le_of_eq h)
  -- Two's complement: the signed number is the balanced remainder.
  | i64 => exact BitVec.toInt_ofNat ..
  | bytes32 => rfl
  | bytes n => rfl

variable {data : Bytes} {k : Nat}

theorem length_take_drop (read : PlainRead) (h : k + read.width ≤ data.length) :
    ((data.drop k).take read.width).length = read.width := by
  rw [List.length_take, List.length_drop]
  omega

theorem run_of_le (read : PlainRead) (h : k + read.width ≤ data.length) :
    read.run (Cursor.placeIn data k) =
      .ok (read.ofBytes ((data.drop k).take read.width) (read.length_take_drop h))
        -- A number is one take of its width; a 32-byte string has a step of its own.
        (Cursor.placeIn data (k + read.width)) := by
  cases read with
  | u8 => exact Cursor.map_takeBytes_of_le .u8 _ h
  | u16 => exact Cursor.map_takeBytes_of_le .u16 _ h
  | u32 => exact Cursor.map_takeBytes_of_le .u32 _ h
  | u64 => exact Cursor.map_takeBytes_of_le .u64 _ h
  | i64 => exact Cursor.map_takeBytes_of_le .i64 _ h
  | bytes32 =>
      -- The 32 bytes are there, so they make up a value.
      have hbytes : Bytes32.ofBytes? ((data.drop k).take 32) = some ⟨(data.drop k).take 32, _⟩ :=
        dif_pos (length_take_drop .bytes32 h)
      simp only [run, Cursor.bytes32, Cursor.placeIn, hbytes, List.drop_drop]
      rfl
  | bytes n => exact Cursor.takeBytes_placeIn_of_le .bytes h

theorem run_of_lt (read : PlainRead) (hk : k ≤ data.length) (h : data.length < k + read.width) :
    read.run (Cursor.placeIn data k) =
      .error (.endOfInput read.item) (Cursor.placeIn data k) := by
  cases read with
  -- A read that is cut short stays where it is.
  | u8 => exact Cursor.map_takeBytes_of_lt .u8 _ hk h
  | u16 => exact Cursor.map_takeBytes_of_lt .u16 _ hk h
  | u32 => exact Cursor.map_takeBytes_of_lt .u32 _ hk h
  | u64 => exact Cursor.map_takeBytes_of_lt .u64 _ hk h
  | i64 => exact Cursor.map_takeBytes_of_lt .i64 _ hk h
  | bytes32 =>
      have hlt : data.length < k + 32 := h
      have hbytes : Bytes32.ofBytes? ((data.drop k).take 32) = none := by
        refine dif_neg ?_
        rw [List.length_take, List.length_drop]
        omega
      simp only [run, Cursor.bytes32, Cursor.placeIn, hbytes]
      rfl
  | bytes n => exact Cursor.takeBytes_placeIn_of_lt .bytes hk h

/-- The ways in which the read ends at place `k` of a string. -/
inductive Ends (read : PlainRead) (data : Bytes) (k : Nat) :
    EStateM.Result ReadError Cursor read.Value → Prop where
  | taken (v : read.Value) (hfits : k + read.width ≤ data.length)
      (hvalue : read.Means ((data.drop k).take read.width) v) :
      Ends read data k (.ok v (Cursor.placeIn data (k + read.width)))
  | short (hshort : data.length < k + read.width) :
      Ends read data k (.error (.endOfInput read.item) (Cursor.placeIn data k))

theorem ends (read : PlainRead) (hk : k ≤ data.length) :
    read.Ends data k (read.run (Cursor.placeIn data k)) := by
  by_cases h : k + read.width ≤ data.length
  · rw [read.run_of_le h]
    exact .taken _ h (means_ofBytes read _ _)
  · have hshort := Nat.lt_of_not_le h
    rw [read.run_of_lt hk hshort]
    exact .short hshort

end PlainRead

namespace CompactSize

/-- What follows a tag: so many bytes, which have to be a number that needs them. -/
structure Payload where
  item : Item
  width : Nat
  least : UInt64

/-- What follows a tag, if anything does. A tag without a payload is the number itself. -/
def payload? (tag : UInt8) : Option Payload :=
  if tag < 0xfd then none
  else if tag = 0xfd then some ⟨.u16, 2, 0xfd⟩
  else if tag = 0xfe then some ⟨.u32, 4, 0x10000⟩
  else some ⟨.u64, 8, 0x100000000⟩

theorem payload?_eq_none_iff {tag : UInt8} : payload? tag = none ↔ tag < 0xfd := by
  rw [payload?]
  split
  · rename_i hsmall
    exact iff_of_true rfl hsmall
  · rename_i hlarge
    -- Whichever of the three tags it is, it has a payload.
    refine iff_of_false ?_ hlarge
    split
    · exact Option.some_ne_none _
    · split <;> exact Option.some_ne_none _

theorem width_le_of_payload? {tag : UInt8} {p : Payload} (h : payload? tag = some p) :
    p.width ≤ 8 := by
  unfold payload? at h
  split at h
  · cases h
  · split at h
    · cases h
      decide
    · split at h
      · cases h
        decide
      · cases h
        decide

theorem read_cons_eq (k : Nat) (tag : UInt8) (s : Bytes) :
    read ⟨k, tag :: s⟩ =
      match payload? tag with
      | none => .ok (tag.toUInt64, 1) ⟨k + 1, s⟩
      | some p => payload p.item p.width p.least ⟨k + 1, s⟩ := by
  rw [read_cons, payload?]
  split
  · rfl
  · split
    · rfl
    · split <;> rfl

/-- The ways in which the read of a number ends at place `k` of a string. -/
inductive Ends (data : Bytes) (k : Nat) :
    EStateM.Result ReadError Cursor (UInt64 × Nat) → Prop where
  | noTag (hend : k = data.length) :
      Ends data k (.error (.endOfInput .u8) (Cursor.placeIn data k))
  | tagAlone (tag : UInt8) (htag : data[k]? = some tag) (hpayload : payload? tag = none)
      (n : UInt64) (hn : n.toNat = tag.toNat) :
      Ends data k (.ok (n, 1) (Cursor.placeIn data (k + 1)))
  | cutShort (tag : UInt8) (htag : data[k]? = some tag) (p : Payload)
      (hpayload : payload? tag = some p) (hshort : data.length < k + 1 + p.width) :
      Ends data k (.error (.endOfInput p.item) (Cursor.placeIn data (k + 1)))
  | notMinimal (tag : UInt8) (htag : data[k]? = some tag) (p : Payload)
      (hpayload : payload? tag = some p) (hfits : k + 1 + p.width ≤ data.length)
      (hsmall : LittleEndian.decode ((data.drop (k + 1)).take p.width) < p.least.toNat) :
      Ends data k (.error .notMinimal (Cursor.placeIn data (k + 1 + p.width)))
  | minimal (tag : UInt8) (htag : data[k]? = some tag) (p : Payload)
      (hpayload : payload? tag = some p) (hfits : k + 1 + p.width ≤ data.length)
      (n : UInt64) (hn : n.toNat = LittleEndian.decode ((data.drop (k + 1)).take p.width))
      (hleast : p.least.toNat ≤ n.toNat) :
      Ends data k (.ok (n, 1 + p.width) (Cursor.placeIn data (k + 1 + p.width)))

variable {data : Bytes} {k : Nat}

theorem payload_of_le (item : Item) {width : Nat} (least : UInt64) (h : k + width ≤ data.length) :
    payload item width least (Cursor.placeIn data k) =
      if LittleEndian.toUInt64 ((data.drop k).take width) < least then
        .error .notMinimal (Cursor.placeIn data (k + width))
      else
        .ok (LittleEndian.toUInt64 ((data.drop k).take width), 1 + width)
          (Cursor.placeIn data (k + width)) := by
  rw [Nat.add_comm 1 width]
  simp only [payload, bind, EStateM.bind, Cursor.takeBytes_placeIn_of_le item h]
  split <;> rfl

theorem payload_of_lt (item : Item) {width : Nat} (least : UInt64) (hk : k ≤ data.length)
    (h : data.length < k + width) :
    payload item width least (Cursor.placeIn data k) =
      .error (.endOfInput item) (Cursor.placeIn data k) := by
  simp only [payload, bind, EStateM.bind, Cursor.takeBytes_placeIn_of_lt item hk h]

/-- At the end there is no tag. -/
theorem read_placeIn_length (data : Bytes) :
    read (Cursor.placeIn data data.length) =
      .error (.endOfInput .u8) (Cursor.placeIn data data.length) := by
  rw [Cursor.placeIn, List.drop_length]
  rfl

theorem ends (hk : k ≤ data.length) : Ends data k (read (Cursor.placeIn data k)) := by
  rcases Nat.eq_or_lt_of_le hk with rfl | hlt
  · -- At the end of the string.
    rw [read_placeIn_length]
    exact .noTag rfl
  · have htag := List.getElem?_eq_getElem hlt
    rw [Cursor.placeIn_of_lt hlt, read_cons_eq]
    rcases hpayload : payload? data[k] with _ | p
    · -- The tag is the number.
      exact .tagAlone _ htag hpayload _ (UInt8.toNat_toUInt64 _)
    · -- The cursor behind the tag is the next place, and the payload is read from there.
      change Ends data k (payload p.item p.width p.least (Cursor.placeIn data (k + 1)))
      by_cases hfits : k + 1 + p.width ≤ data.length
      · rw [payload_of_le p.item p.least hfits]
        have hbytes : ((data.drop (k + 1)).take p.width).length ≤ 8 :=
          Nat.le_trans (List.length_take_le _ _) (width_le_of_payload? hpayload)
        have hvalue := LittleEndian.toNat_toUInt64 hbytes
        -- All of the payload is there; the number decides whether it is the shortest form.
        split
        · rename_i hsmall
          rw [UInt64.lt_iff_toNat_lt, hvalue] at hsmall
          exact .notMinimal _ htag p hpayload hfits hsmall
        · rename_i hleast
          rw [UInt64.lt_iff_toNat_lt] at hleast
          exact .minimal _ htag p hpayload hfits _ hvalue (Nat.le_of_not_lt hleast)
      · -- The payload is cut short, and the cursor stays behind the tag.
        have hshort := Nat.lt_of_not_le hfits
        rw [payload_of_lt p.item p.least hlt hshort]
        exact .cutShort _ htag p hpayload hshort

end CompactSize

end CoinCommit
