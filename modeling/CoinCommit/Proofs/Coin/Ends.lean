import CoinCommit.Proofs.Bytes.CutShort
import CoinCommit.Proofs.Coin.Codec
import CoinCommit.Proofs.Hash.Separated

/-!
# Where a Record Ends

The value under which a record is stored says where it ends. If it is cut short,
in whichever field of whichever slot, what is left is no record, and the reader
does not take it for a damaged one either: it misses bytes, and reports the
place where it does. If bytes follow, the reader has come to the end of the
record and reports how many they are.

## Main definitions

* `CoinError.IsShort`: A record is refused because it misses bytes.

## Theorems

* `CoinRecord.steady_read`: A record is read without looking behind it.
* `CoinRecord.decode_of_cut`, `CoinRecord.decode_append`: A record that is cut
  short, and one with bytes behind.
* `CoinRecord.tells_its_end`: Both, and what it means for stored values.
-/

namespace CoinCommit

/-- The record is refused because there were too few bytes at some place. -/
def CoinError.IsShort (e : CoinError) : Prop :=
  ∃ place item, e = .unreadable place (.endOfInput item)

namespace CoinRecord

theorem steady_reading {α : Type} {read : Read α} (place : CoinPlace)
    (h : Steady read ReadError.IsShort) : Steady (reading place read) CoinError.IsShort := by
  refine h.adaptExcept ?_
  rintro _ ⟨item, rfl⟩
  exact ⟨place, item, rfl⟩

theorem steady_readFlag : Steady readFlag CoinError.IsShort :=
  -- Another flag byte is no lack of bytes, but the bytes that are there decide it.
  (steady_reading .flags Cursor.steady_u8).bind fun _ =>
    (Steady.pure false).ite ((Steady.pure true).ite (Steady.throw _))

/-- A number that is held against its bound before the reader goes on. -/
theorem steady_bounded {α : Type} (place : CoinPlace) (bound : UInt64) (error : UInt64 → CoinError)
    {next : Nat → ReadCoin α} (h : ∀ n, Steady (next n) CoinError.IsShort) :
    Steady (reading place CompactSize.read >>= fun p =>
      if bound < p.1 then throw (error p.1) else next p.1.toNat) CoinError.IsShort :=
  (steady_reading place CompactSize.steady_read).bind fun p => (Steady.throw _).ite (h p.1.toNat)

theorem steady_readCount : Steady readCount CoinError.IsShort :=
  steady_bounded .count maxSlots .tooManySlots fun n => Steady.pure n

theorem steady_readOutput (i : Nat) : Steady (readOutput i) CoinError.IsShort :=
  (steady_reading (.amount i) Cursor.steady_i64).bind fun _ =>
    steady_bounded (.scriptLength i) maxScriptBytes (.scriptTooLong i) fun n =>
      (steady_reading (.script i) (Cursor.steady_bytes n)).map

theorem steady_readSlot (i : Nat) : Steady (readSlot i) CoinError.IsShort :=
  (steady_reading (.slot i) Cursor.steady_u8).bind fun _ =>
    (Steady.pure none).ite ((steady_readOutput i).map.ite (Steady.throw _))

/-- All slots of a record are read one after another, and what follows is not looked at. -/
theorem steady_read (txid : Bytes32) : Steady (read txid) CoinError.IsShort :=
  -- One reader after the other: the height, the flag, the count, and as many slots.
  (steady_reading .height Cursor.steady_u64).bind fun _ => steady_readFlag.bind fun _ =>
    steady_readCount.bind fun n => (Steady.mapM steady_readSlot (List.range n)).map

variable {r : CoinRecord}

/-- The law of the whole record for any transaction, which is not part of the value. -/
theorem read_encode_append (h : r.WithinLimits) (txid : Bytes32) (more : Bytes) :
    read txid (Cursor.start (r.encode ++ more)) =
      -- The form of the record does not have the transaction in it.
      .ok { r with txid := txid } ⟨r.encode.length, more⟩ := by
  have hread := (reads_read txid).ok_of_append (a := { r with txid := txid })
    ⟨rfl, h.slots, h.scripts⟩ 0 more
  rw [Nat.zero_add] at hread
  exact hread

/-- A record that is cut short is refused for the bytes it misses. -/
theorem decode_of_cut (h : r.WithinLimits) (txid : Bytes32) {cut : Bytes} (hcut : cut <+: r.encode)
    (hne : cut ≠ r.encode) : ∃ e, decode txid cut = .error e ∧ e.IsShort := by
  have hvalid : ({ r with txid := txid } : CoinRecord).txid = txid ∧
      ({ r with txid := txid } : CoinRecord).WithinLimits := ⟨rfl, h.slots, h.scripts⟩
  -- The record is read from its form, so from less of it a reader must run out.
  rcases (steady_read txid).exists_error_of_cut (reads_read txid) hvalid hcut hne 0 with
    ⟨e, c, hstep, hshort⟩
  refine ⟨e, ?_, hshort⟩
  rw [decode, Cursor.start, hstep]

/-- Bytes behind a record are counted. -/
theorem decode_append (h : r.WithinLimits) (txid : Bytes32) {more : Bytes} (hmore : more ≠ []) :
    decode txid (r.encode ++ more) = .error (.trailing more.length) := by
  rw [decode, read_encode_append h txid more]
  exact if_neg hmore

/-- A value of a record within the limits that is cut short misses bytes, and one with bytes behind
    is refused for their number, whichever transaction is asked for. So no value that is read
    begins with another one. -/
theorem tells_its_end (r : CoinRecord) (h : r.WithinLimits) (txid : Bytes32) :
    (∀ cut, cut <+: r.encode → cut ≠ r.encode →
      ∃ place item, decode txid cut = .error (.unreadable place (.endOfInput item))) ∧
    (∀ more, more ≠ [] → ∃ e, decode txid (r.encode ++ more) = .error e ∧
      e = .trailing more.length ∧
        e.message = "coin record: " ++ Nat.repr more.length ++ " trailing bytes") ∧
    ∀ txid' value r', decode txid' value = .ok r' → value <+: r.encode ∨ r.encode <+: value →
      value = r.encode := by
  refine ⟨fun cut hcut hne => ?_, fun more hmore => ?_, fun txid' value r' hvalue hbegins => ?_⟩
  · rcases decode_of_cut h txid hcut hne with ⟨_, hrefused, place, item, rfl⟩
    exact ⟨place, item, hrefused⟩
  · exact ⟨_, decode_append h txid hmore, rfl, rfl⟩
  · -- Else one of the two is the other cut short, or has bytes behind it.
    by_contra hne
    rcases hbegins with hcut | ⟨more, rfl⟩
    · rcases decode_of_cut h txid' hcut hne with ⟨e, hrefused, _⟩
      -- It was read, but a record that is cut short is not.
      cases hvalue.symm.trans hrefused
    · have hmore : more ≠ [] := by
        -- There are bytes behind, since the two are not the same.
        rintro rfl
        exact hne (List.append_nil _)
      cases hvalue.symm.trans (decode_append h txid' hmore)

end CoinRecord

namespace TwoSlots

/-- A record with an empty slot in front of a live one. -/
def record : CoinRecord := ⟨.fill 9, 7, true, [none, some ⟨5000, [0, 0, 0]⟩]⟩

theorem withinLimits_record : record.WithinLimits := by
  -- Only the second slot has an output, and its script is short.
  refine ⟨by decide, fun output hout => ?_⟩
  rcases List.mem_cons.mp hout with hnone | hsome
  · cases hnone
  · cases List.mem_singleton.mp hsome
    exact Nat.le_of_ble_eq_true rfl

end TwoSlots

/-- The record misses a byte of its script, or has three bytes behind that could be slots. -/
theorem CoinRecord.tells_end_of_two_slots :
    TwoSlots.record.WithinLimits ∧
      (∃ place item, decode (.fill 1) TwoSlots.record.encode.dropLast =
        .error (.unreadable place (.endOfInput item))) ∧
      ∃ e, decode (.fill 1) (TwoSlots.record.encode ++ [0, 0, 0]) = .error e ∧
        e.message = "coin record: 3 trailing bytes" := by
  rcases tells_its_end TwoSlots.record TwoSlots.withinLimits_record (.fill 1) with
    ⟨hcut, hmore, _⟩
  rcases hmore [0, 0, 0] (by decide) with ⟨e, hrefused, _, hmessage⟩
  exact ⟨TwoSlots.withinLimits_record, hcut _ (List.dropLast_prefix _) (by decide), e, hrefused,
    hmessage⟩

end CoinCommit
