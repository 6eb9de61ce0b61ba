import CoinCommit.Coin.Codec
import CoinCommit.Proofs.Bytes.Reads

/-!
# The Form of a Coin Record

A value is read as a record exactly if it is the form in which the record is
written, the record is the one of the transaction asked for, and it keeps to
the limits on slots and scripts. Nothing else is accepted, so what is stored
for a record can be told from the record.

The laws below follow the readers from the inside out: the flag, the number of
slots, one output, one slot, the record.

## Main definitions

* `CoinRecord.WithinLimits`: A record that can be read back.

## Theorems

* `CoinRecord.reads_read`: The law of the whole record.
* `CoinRecord.decode_encode`: A record within the limits is read back.
* `CoinRecord.of_decode_eq_ok`: A value that is read is the form of a record
  within the limits.
* `CoinRecord.decode_eq_ok_iff`: Both at once, for every value and every record.
-/

namespace CoinCommit

namespace CoinRecord

/-- A script that may stand in a stored record. -/
def ScriptWithinLimits (script : Bytes) : Prop := script.length ≤ maxScriptBytes.toNat

/-- A record with no more slots than can be read back and no longer scripts. -/
structure WithinLimits (r : CoinRecord) : Prop where
  slots : r.outputs.length ≤ maxSlots.toNat
  scripts : ∀ output, some output ∈ r.outputs → ScriptWithinLimits output.script

theorem reads_reading {α : Type} {read : Read α} {form : α → Bytes} {valid : α → Prop}
    (place : CoinPlace) (h : Reads read form valid) : Reads (reading place read) form valid :=
  Reads.adaptExcept _ h

theorem reads_readFlag :
    Reads readFlag (fun flag => [if flag then 1 else 0]) (fun _ => True) := by
  -- What is made of the byte takes nothing more, and each flag has a byte of its own.
  have hnext : ∀ byte : UInt8, Reads (if byte = 0 then pure false
      else if byte = 1 then pure true else throw (.badFlag byte) : ReadCoin Bool)
      (fun _ => []) (fun flag => byte = if flag then 1 else 0) := by
    intro byte
    by_cases h0 : byte = 0
    · rw [if_pos h0]
      refine (Reads.pure false).congr (fun _ _ => rfl) ?_
      intro flag
      cases flag <;> simp [h0]
    · rw [if_neg h0]
      by_cases h1 : byte = 1
      · rw [if_pos h1]
        refine (Reads.pure true).congr (fun _ _ => rfl) ?_
        intro flag
        cases flag <;> simp [h1]
      · rw [if_neg h1]
        -- No flag has another byte.
        refine (Reads.throw _ _).congr (fun _ _ => rfl) ?_
        intro flag
        cases flag <;> simp [h0, h1]
  refine (reads_reading .flags Cursor.reads_u8).bind (fun byte _ => hnext byte) ?_ ?_
  · intro byte flag _ hbyte
    rw [hbyte, List.append_nil]
  · intro flag
    exact ⟨fun _ => ⟨_, trivial, rfl⟩, fun _ => trivial⟩

/-- A bound that is checked before a reader goes on. -/
theorem reads_guard {α : Type} {p : Prop} [Decidable p] (e : CoinError) {next : ReadCoin α}
    {form : α → Bytes} {valid : α → Prop} (h : Reads next form valid) :
    Reads (if p then throw e else next) form (fun a => ¬ p ∧ valid a) := by
  by_cases hp : p
  · rw [if_pos hp]
    -- The bound is broken, and nothing is read.
    refine (Reads.throw e form).congr (fun _ _ => rfl) ?_
    intro a
    exact ⟨fun ha => ha.1 hp, False.elim⟩
  · rw [if_neg hp]
    refine h.congr (fun _ _ => rfl) ?_
    intro a
    exact ⟨fun ha => ha.2, fun ha => ⟨hp, ha⟩⟩

/-- A number that says how much follows it: it is read, held against its bound, and read back from
    what follows. -/
theorem reads_bounded {α : Type} (place : CoinPlace) (bound : UInt64) (error : UInt64 → CoinError)
    {next : Nat → ReadCoin α} {form : α → Bytes} {valid : Nat → α → Prop} {count : α → Nat}
    (hnext : ∀ n, Reads (next n) form (valid n)) (hcount : ∀ n a, valid n a → count a = n) :
    Reads (reading place CompactSize.read >>= fun p =>
        if bound < p.1 then throw (error p.1) else next p.1.toNat)
      (fun a => CompactSize.ofLength (count a) ++ form a)
      (fun a => count a ≤ bound.toNat ∧ valid (count a) a) := by
  refine (reads_reading place CompactSize.reads_read).bind
    (fun p _ => reads_guard (error p.1) (hnext p.1.toNat)) ?_ ?_
  · -- The number that was read is the count of what follows it.
    intro p a _ ha
    rw [hcount _ a ha.2, CompactSize.ofLength, UInt64.ofNat_toNat]
  · intro a
    constructor
    · intro h
      -- A count within the bound fits into a word, so it is the number that its form stands for.
      have htoNat : (UInt64.ofNat (count a)).toNat = count a :=
        UInt64.toNat_ofNat_of_lt' (Nat.lt_of_le_of_lt h.1 bound.toNat_lt)
      refine ⟨(UInt64.ofNat (count a), (CompactSize.ofLength (count a)).length), rfl, ?_, ?_⟩
      · rw [UInt64.lt_iff_toNat_lt, htoNat]
        exact Nat.not_lt.mpr h.1
      · rw [htoNat]
        exact h.2
    · intro h
      rcases h with ⟨p, _, hle, ha⟩
      rw [hcount _ a ha]
      exact ⟨Nat.not_lt.mp hle, ha⟩

theorem reads_readCount :
    Reads readCount CompactSize.ofLength (fun n => n ≤ maxSlots.toNat) := by
  refine (reads_bounded .count maxSlots .tooManySlots (fun n => Reads.pure n)
    (fun _ _ h => h)).congr ?_ ?_
  · intro n _
    rw [List.append_nil]
  · intro n
    exact (and_iff_left rfl).symm

theorem reads_readOutput (i : Nat) :
    Reads (readOutput i) (fun output => LittleEndian.ofInt64 output.amount ++
        (CompactSize.ofLength output.script.length ++ output.script))
      (fun output => ScriptWithinLimits output.script) := by
  -- What follows the length is the script, and the amount is known by then.
  have hscript : ∀ (amount : Int64) (n : Nat),
      Reads (reading (.script i) (Cursor.bytes n) >>= fun script => pure (Output.mk amount script))
        Output.script (fun output => output.script.length = n ∧ output.amount = amount) := by
    intro amount n
    refine (reads_reading (.script i) (Cursor.reads_bytes n)).map (fun _ _ => rfl) ?_
    intro output
    constructor
    · intro h
      exact ⟨output.script, h.1, by rw [← h.2]⟩
    · intro h
      rcases h with ⟨script, hlen, rfl⟩
      exact ⟨hlen, rfl⟩
  refine (reads_reading (.amount i) Cursor.reads_i64).bind
    (fun amount _ => reads_bounded (.scriptLength i) maxScriptBytes (.scriptTooLong i)
      (hscript amount) (fun _ _ h => h.1)) ?_ ?_
  · intro amount output _ hout
    rw [hout.2.2]
  · intro output
    constructor
    · intro h
      exact ⟨output.amount, trivial, h, rfl, rfl⟩
    · intro h
      rcases h with ⟨_, _, hlimit, _⟩
      exact hlimit

theorem reads_readSlot (i : Nat) :
    Reads (readSlot i) encodeSlot
      (fun slot => ∀ output, slot = some output → ScriptWithinLimits output.script) := by
  -- A live slot is its tag and the form of its output.
  have hsome : Reads (readOutput i >>= fun output => pure (some output))
      (fun slot => (encodeSlot slot).tail)
      (fun slot => ∃ output, ScriptWithinLimits output.script ∧ slot = some output) := by
    refine (reads_readOutput i).map ?_ (fun _ => Iff.rfl)
    intro output _
    rw [encodeSlot, List.append_assoc, List.cons_append, List.tail_cons]
  -- The tag is the first byte of the form, so the law of the rest is about slots with this tag.
  have hnext : ∀ tag : UInt8, Reads (if tag = 0 then pure none
      else if tag = 1 then readOutput i >>= fun output => pure (some output)
      else throw (.badSlotTag i tag) : ReadCoin (Option Output))
      (fun slot => (encodeSlot slot).tail)
      (fun slot => (encodeSlot slot).head? = some tag ∧
        ∀ output, slot = some output → ScriptWithinLimits output.script) := by
    intro tag
    by_cases h0 : tag = 0
    · rw [if_pos h0]
      refine (Reads.pure none).congr ?_ ?_
      · intro slot hslot
        -- An empty slot is nothing but its tag.
        rw [hslot]
        rfl
      · intro slot
        cases slot <;> simp [encodeSlot, h0]
    · rw [if_neg h0]
      by_cases h1 : tag = 1
      · rw [if_pos h1]
        refine hsome.congr (fun _ _ => rfl) ?_
        intro slot
        cases slot <;> simp [encodeSlot, h1]
      · -- No slot has another tag.
        rw [if_neg h1]
        refine (Reads.throw _ _).congr (fun _ _ => rfl) ?_
        intro slot
        cases slot <;> simp [encodeSlot, Ne.symm h0, Ne.symm h1]
  refine (reads_reading (.slot i) Cursor.reads_u8).bind (fun tag _ => hnext tag) ?_ ?_
  · intro tag slot _ hslot
    exact List.eq_cons_of_mem_head? hslot.1
  · intro slot
    constructor
    · intro h
      cases slot with
      | none => exact ⟨0, trivial, rfl, h⟩
      | some output => exact ⟨1, trivial, rfl, h⟩
    · intro h
      rcases h with ⟨_, _, _, hlimit⟩
      exact hlimit

/- The fields are read in their order, so each of the laws that follow is about a field and all that
   come after it. -/

theorem reads_slots (txid : Bytes32) (height : UInt64) (coinbase : Bool) (n : Nat) :
    Reads ((List.range n).mapM readSlot >>= fun outputs =>
        pure (CoinRecord.mk txid height coinbase outputs))
      (fun r => r.outputs.flatMap encodeSlot)
      (fun r => r.outputs.length = n ∧
        (∀ output, some output ∈ r.outputs → ScriptWithinLimits output.script) ∧
          r.txid = txid ∧ r.height = height ∧ r.coinbase = coinbase) := by
  refine (Reads.mapM reads_readSlot (List.range n)).map (fun _ _ => rfl) ?_
  intro r
  constructor
  · intro h
    rcases h with ⟨hlen, hscripts, htxid, hheight, hcoinbase⟩
    -- As many slots as were counted, each within the limit for its script.
    refine ⟨r.outputs, ⟨by rw [hlen, List.length_range], ?_⟩, ?_⟩
    · intro slot hslot output hout
      exact hscripts output (hout ▸ hslot)
    · rw [← htxid, ← hheight, ← hcoinbase]
  · intro h
    rcases h with ⟨outputs, ⟨hlen, hscripts⟩, rfl⟩
    rw [List.length_range] at hlen
    exact ⟨hlen, fun output hout => hscripts _ hout output rfl, rfl, rfl, rfl⟩

theorem reads_counted (txid : Bytes32) (height : UInt64) (coinbase : Bool) :
    Reads (readCount >>= fun n => (List.range n).mapM readSlot >>= fun outputs =>
        pure (CoinRecord.mk txid height coinbase outputs))
      (fun r => CompactSize.ofLength r.outputs.length ++ r.outputs.flatMap encodeSlot)
      (fun r => r.WithinLimits ∧ r.txid = txid ∧ r.height = height ∧ r.coinbase = coinbase) := by
  -- The count is that of the slots that follow.
  refine reads_readCount.bind (fun n _ => reads_slots txid height coinbase n) ?_ ?_
  · intro n r _ hr
    rw [hr.1]
  · intro r
    constructor
    · intro h
      exact ⟨r.outputs.length, h.1.slots, rfl, h.1.scripts, h.2⟩
    · intro h
      rcases h with ⟨n, hle, hlen, hscripts, hfields⟩
      exact ⟨⟨hlen ▸ hle, hscripts⟩, hfields⟩

theorem reads_flagged (txid : Bytes32) (height : UInt64) :
    Reads (readFlag >>= fun coinbase => readCount >>= fun n =>
        (List.range n).mapM readSlot >>= fun outputs =>
          pure (CoinRecord.mk txid height coinbase outputs))
      (fun r => [if r.coinbase then 1 else 0] ++
        (CompactSize.ofLength r.outputs.length ++ r.outputs.flatMap encodeSlot))
      (fun r => r.WithinLimits ∧ r.txid = txid ∧ r.height = height) := by
  refine reads_readFlag.bind (fun coinbase _ => reads_counted txid height coinbase) ?_ ?_
  · intro coinbase r _ hr
    rw [hr.2.2.2]
  · intro r
    constructor
    · intro h
      exact ⟨r.coinbase, trivial, h.1, h.2.1, h.2.2, rfl⟩
    · intro h
      rcases h with ⟨_, _, hlimits, htxid, hheight, _⟩
      exact ⟨hlimits, htxid, hheight⟩

/-- A record is read from its form, and only if it keeps to the limits. -/
theorem reads_read (txid : Bytes32) :
    Reads (read txid) encode (fun r => r.txid = txid ∧ r.WithinLimits) := by
  -- The transaction is not read but given.
  refine (reads_reading .height Cursor.reads_u64).bind (fun height _ => reads_flagged txid height)
    ?_ ?_
  · intro height r _ hr
    rw [encode, hr.2.2, List.append_assoc, List.append_assoc]
  · intro r
    constructor
    · intro h
      exact ⟨r.height, trivial, h.2, h.1, rfl⟩
    · intro h
      rcases h with ⟨_, _, hlimits, htxid, _⟩
      exact ⟨htxid, hlimits⟩

theorem decode_encode {r : CoinRecord} (h : r.WithinLimits) : decode r.txid r.encode = .ok r := by
  have hread := (reads_read r.txid).ok_of_append ⟨rfl, h⟩ 0 []
  rw [List.append_nil] at hread
  rw [decode, Cursor.start, hread]
  exact if_pos rfl

/-- Only the form of a record within the limits is read. -/
theorem of_decode_eq_ok {txid : Bytes32} {value : Bytes} {r : CoinRecord}
    (h : decode txid value = .ok r) : r.txid = txid ∧ r.WithinLimits ∧ value = r.encode := by
  rw [decode] at h
  split at h
  · -- A record has been read; all that is left to ask is whether it reaches to the end.
    rename_i r' c hread
    split at h
    · rename_i hend
      cases h
      rcases (reads_read txid _ _ _).mp hread with ⟨⟨htxid, hlimits⟩, hrest, _⟩
      rw [hend, List.append_nil] at hrest
      exact ⟨htxid, hlimits, hrest⟩
    · cases h
  · cases h

/-- A value is read as a record exactly if it is the form of that record, the record is the one of
    the transaction asked for, and it keeps to both limits. So a record that can be read has one
    form, and a value stands for one record at most. -/
theorem decode_eq_ok_iff (txid : Bytes32) (value : Bytes) (r : CoinRecord) :
    decode txid value = .ok r ↔
      r.txid = txid ∧ r.outputs.length ≤ maxSlots.toNat ∧
        (∀ output, some output ∈ r.outputs → output.script.length ≤ maxScriptBytes.toNat) ∧
          value = r.encode := by
  constructor
  · intro h
    rcases of_decode_eq_ok h with ⟨htxid, hlimits, hform⟩
    exact ⟨htxid, hlimits.slots, hlimits.scripts, hform⟩
  · rintro ⟨rfl, hslots, hscripts, rfl⟩
    exact decode_encode ⟨hslots, hscripts⟩

end CoinRecord

end CoinCommit
