import CoinCommit.Proofs.Bytes.Delimited
import CoinCommit.Proofs.Coin.Codec

/-!
# Records Beyond the Limits

The form in which a record is written names its record, within the limits or
not: every field is of fixed width or has its length in front, so what is
written can be cut in one way only. A record beyond the limits is therefore no
other record in disguise. Its form is that of no record that can be read, and
reading refuses it.

A length is written as a word of 64 bits, which tells lengths apart as long as
they fit into one. Forms that are themselves short enough have no longer parts,
and the forms of records within the limits are short enough by far.

## Theorems

* `CoinRecord.encodeSlot_append_inj`: Slots can be told from what follows.
* `CoinRecord.eq_of_encode_eq`: The form names its record.
* `CoinRecord.length_encode_lt`: Forms of records within the limits are short.
* `CoinRecord.decode_encode_eq_error`: A record beyond the limits is refused.
-/

namespace CoinCommit

namespace CompactSize

theorem length_ofLength_le (n : Nat) : (ofLength n).length ≤ 9 := by
  simp only [ofLength, encode]
  split
  · exact Nat.le_of_ble_eq_true rfl
  · split
    · exact Nat.le_of_ble_eq_true rfl
    · split
      · exact Nat.le_of_ble_eq_true rfl
      · exact Nat.le_of_ble_eq_true rfl

end CompactSize

namespace CoinRecord

theorem one_le_length_encodeSlot (slot : Option Output) : 1 ≤ (encodeSlot slot).length := by
  cases slot with
  | none => exact Nat.le_refl 1
  | some output => exact Nat.succ_le_succ (Nat.zero_le _)

theorem length_script_lt (output : Output) :
    output.script.length < (encodeSlot (some output)).length := by
  simp only [encodeSlot, List.length_cons, List.length_append]
  omega

/-- What is written of a slot says where it ends. -/
theorem encodeSlot_append_inj {a b : Option Output} {s s' : Bytes}
    (ha : (encodeSlot a).length ≤ UInt64.size) (hb : (encodeSlot b).length ≤ UInt64.size)
    (h : encodeSlot a ++ s = encodeSlot b ++ s') : a = b ∧ s = s' := by
  rcases a with _ | a
  · rcases b with _ | b
    · exact ⟨rfl, (List.cons.inj h).2⟩
    · -- The tags differ.
      cases (List.cons.inj h).1
  · rcases b with _ | b
    · cases (List.cons.inj h).1
    · simp only [encodeSlot, List.cons_append, List.append_assoc] at h
      have hrest := (List.cons.inj h).2
      -- The amount has a fixed width, and the script has its length in front.
      have hwidth : (LittleEndian.ofInt64 a.amount).length =
          (LittleEndian.ofInt64 b.amount).length :=
        (LittleEndian.length_encode 8 _).trans (LittleEndian.length_encode 8 _).symm
      have hamount := List.append_inj hrest hwidth
      have hlength := CompactSize.ofLength_append_inj
        (Nat.lt_of_lt_of_le (length_script_lt a) ha) (Nat.lt_of_lt_of_le (length_script_lt b) hb)
        hamount.2
      have hscript := List.append_inj hlength.2 hlength.1
      have houtput : a = b := by
        rcases a with ⟨amount, script⟩
        rcases b with ⟨amount', script'⟩
        have he : amount = amount' := by
          rw [← LittleEndian.toInt64_ofInt64 amount, hamount.1, LittleEndian.toInt64_ofInt64]
        cases he
        cases hscript.1
        rfl
      exact ⟨congrArg some houtput, hscript.2⟩

/-- The slots of a list are told apart one after another. -/
theorem eq_of_flatMap_encodeSlot_eq {slots slots' : List (Option Output)}
    (hlen : (slots.flatMap encodeSlot).length ≤ UInt64.size)
    (h : slots.flatMap encodeSlot = slots'.flatMap encodeSlot) : slots = slots' := by
  induction slots generalizing slots' with
  | nil =>
      cases slots' with
      | nil => rfl
      | cons b rest' =>
          -- A slot takes a byte at least, and there are none.
          have hpos := one_le_length_encodeSlot b
          have hnil : 0 = (encodeSlot b ++ rest'.flatMap encodeSlot).length :=
            congrArg List.length h
          rw [List.length_append] at hnil
          omega
  | cons a rest ih =>
      have hsum := congrArg List.length h
      cases slots' with
      | nil =>
          have hpos := one_le_length_encodeSlot a
          rw [List.flatMap_cons, List.length_append, List.flatMap_nil, List.length_nil] at hsum
          omega
      | cons b rest' =>
          rw [List.flatMap_cons, List.flatMap_cons] at h
          rw [List.flatMap_cons, List.flatMap_cons, List.length_append, List.length_append] at hsum
          rw [List.flatMap_cons, List.length_append] at hlen
          -- The first slots are told apart, and what follows them are the rests.
          rcases encodeSlot_append_inj (by omega) (by omega) h with ⟨rfl, hrest⟩
          rw [ih (by omega) hrest]

/-- Two records of a transaction that are written alike are the same, whether or not they can be
    read back. -/
theorem eq_of_encode_eq {r r' : CoinRecord} (htxid : r.txid = r'.txid)
    (hlen : r.encode.length < UInt64.size) (h : r.encode = r'.encode) : r = r' := by
  have hlen' : r'.encode.length < UInt64.size := h ▸ hlen
  -- A slot takes a byte at least, so there are fewer slots than bytes.
  have hslots := length_le_length_flatMap one_le_length_encodeSlot r.outputs
  have hslots' := length_le_length_flatMap one_le_length_encodeSlot r'.outputs
  simp only [encode, List.append_assoc, List.length_append] at h hlen hlen'
  -- Height and flag have fixed widths; the number of slots is told from the slots themselves.
  have hheight := List.append_inj h
    ((LittleEndian.length_encode 8 _).trans (LittleEndian.length_encode 8 _).symm)
  have hflag := List.cons.inj hheight.2
  have hcount := CompactSize.ofLength_append_inj (by omega) (by omega) hflag.2
  have houtputs : r.outputs = r'.outputs := eq_of_flatMap_encodeSlot_eq (by omega) hcount.2
  rcases r with ⟨txid, height, coinbase, outputs⟩
  rcases r' with ⟨txid', height', coinbase', outputs'⟩
  have he : height = height' := by
    rw [← LittleEndian.toUInt64_ofUInt64 height, hheight.1, LittleEndian.toUInt64_ofUInt64]
  -- The flags have different bytes.
  have hc : coinbase = coinbase' := by
    have hbyte := hflag.1
    cases coinbase <;> cases coinbase'
    · rfl
    · cases hbyte
    · cases hbyte
    · rfl
  cases htxid
  cases he
  cases hc
  cases houtputs
  rfl

theorem length_flatMap_encodeSlot_le {slots : List (Option Output)}
    (h : ∀ output, some output ∈ slots → ScriptWithinLimits output.script) :
    (slots.flatMap encodeSlot).length ≤ 10018 * slots.length := by
  induction slots with
  | nil => exact Nat.le_refl 0
  | cons slot rest ih =>
      have hrest := ih fun output hout => h output (List.mem_cons_of_mem slot hout)
      -- A tag, an amount, a length of nine bytes at most, and the script.
      have hslot : (encodeSlot slot).length ≤ 10018 := by
        cases slot with
        | none => exact Nat.le_of_ble_eq_true rfl
        | some output =>
            have hscript : output.script.length ≤ 10000 := h output List.mem_cons_self
            have hsize := CompactSize.length_ofLength_le output.script.length
            have hamount : (LittleEndian.ofInt64 output.amount).length = 8 :=
              LittleEndian.length_encode 8 _
            simp only [encodeSlot, List.length_cons, List.length_append]
            omega
      rw [List.flatMap_cons, List.length_append, List.length_cons]
      omega

/-- The form of a record within the limits has far fewer bytes than a word can count. -/
theorem length_encode_lt {r : CoinRecord} (h : r.WithinLimits) :
    r.encode.length < UInt64.size := by
  have hslots : r.outputs.length ≤ 65536 := h.slots
  have hflat := length_flatMap_encodeSlot_le h.scripts
  have hsize := CompactSize.length_ofLength_le r.outputs.length
  have hheight : (LittleEndian.ofUInt64 r.height).length = 8 := LittleEndian.length_encode 8 _
  simp only [encode, List.length_append, List.length_cons, List.length_nil]
  have hbound : UInt64.size = 18446744073709551616 := rfl
  omega

/-- A record beyond the limits can be written, and what is written is refused. -/
theorem decode_encode_eq_error {r : CoinRecord} (h : ¬ r.WithinLimits) :
    ∃ e, decode r.txid r.encode = .error e := by
  rcases hdec : decode r.txid r.encode with e | r'
  · exact ⟨e, rfl⟩
  · -- What was read would be the record itself, and that one is beyond the limits.
    rcases of_decode_eq_ok hdec with ⟨htxid, hlimits, hform⟩
    have hlen : r'.encode.length < UInt64.size := length_encode_lt hlimits
    have hsame : r' = r := eq_of_encode_eq htxid hlen hform.symm
    exact absurd (hsame ▸ hlimits) h

end CoinRecord

end CoinCommit
