import CoinCommit.Bytes.Hex

/-!
# Texts of Digits

A text is read as hexadecimal digits by the bytes of its UTF-8 form. A digit of
either case is one such byte, so for texts of digits it makes no difference
whether bytes or characters are counted, and a text of 64 digits is read as
32 bytes.

## Main definitions

* `Hex.IsDigit`: A digit of either case.
* `Hex.SpellsHash`: A text of 64 digits.

## Theorems

* `Hex.value?_of_isDigit`: A digit is one byte with a value.
* `Hex.SpellsHash.decode32`: A text of 64 digits is read.
* `Hex.spellsHash_encode`: What is written is a text of 64 digits.
-/

namespace CoinCommit

namespace Hex

/-- A hexadecimal digit of either case. -/
def IsDigit (c : Char) : Prop :=
  ('0' ≤ c ∧ c ≤ '9') ∨ ('a' ≤ c ∧ c ≤ 'f') ∨ ('A' ≤ c ∧ c ≤ 'F')

instance (c : Char) : Decidable (IsDigit c) := by
  unfold IsDigit
  infer_instance

/-- A text of as many digits as 32 bytes have. -/
structure SpellsHash (text : String) : Prop where
  length_eq : text.toList.length = 64
  digits : ∀ c ∈ text.toList, IsDigit c

-- The number of a digit's character lies in one of three ranges.
theorem IsDigit.range {c : Char} (h : IsDigit c) :
    (48 ≤ c.val.toNat ∧ c.val.toNat ≤ 57) ∨ (97 ≤ c.val.toNat ∧ c.val.toNat ≤ 102) ∨
      (65 ≤ c.val.toNat ∧ c.val.toNat ≤ 70) := by
  simp only [IsDigit, Char.le_def, UInt32.le_iff_toNat_le] at h
  exact h

-- The same ranges are those of the bytes that have a value.
theorem exists_value {b : UInt8} (h : (48 ≤ b.toNat ∧ b.toNat ≤ 57) ∨
    (97 ≤ b.toNat ∧ b.toNat ≤ 102) ∨ (65 ≤ b.toNat ∧ b.toNat ≤ 70)) : ∃ n, value? b = some n := by
  simp only [value?, Bool.and_eq_true, decide_eq_true_eq, UInt8.le_iff_toNat_le,
    UInt8.reduceToNat]
  by_cases hdigit : 48 ≤ b.toNat ∧ b.toNat ≤ 57
  · exact ⟨_, if_pos hdigit⟩
  · rw [if_neg hdigit]
    by_cases hlower : 97 ≤ b.toNat ∧ b.toNat ≤ 102
    · exact ⟨_, if_pos hlower⟩
    · rw [if_neg hlower]
      exact ⟨_, if_pos (by omega)⟩

/-- A digit is one byte, and that byte has a value. -/
theorem value?_of_isDigit {c : Char} (h : IsDigit c) :
    ∃ b n, String.utf8EncodeChar c = [b] ∧ value? b = some n := by
  have hrange := h.range
  -- All three ranges lie below 128, so the character is encoded as its own number.
  have hone : String.utf8EncodeChar c = [UInt8.ofNat c.val.toNat] :=
    if_pos (show c.val.toNat ≤ 127 by omega)
  have hb : (UInt8.ofNat c.val.toNat).toNat = c.val.toNat :=
    UInt8.toNat_ofNat_of_lt' (show c.val.toNat < 256 by omega)
  rcases exists_value (by rw [hb]; exact hrange) with ⟨n, hn⟩
  exact ⟨_, n, hone, hn⟩

theorem map_value?_of_digits {cs : List Char} (h : ∀ c ∈ cs, IsDigit c) :
    ∃ ns : List Nat, ns.length = cs.length ∧
      (cs.flatMap String.utf8EncodeChar).map value? = ns.map some := by
  induction cs with
  | nil => exact ⟨[], rfl, rfl⟩
  | cons c cs ih =>
      rcases value?_of_isDigit (h c List.mem_cons_self) with ⟨b, n, hb, hn⟩
      rcases ih fun c' hc' => h c' (List.mem_cons_of_mem c hc') with ⟨ns, hlen, hns⟩
      refine ⟨n :: ns, ?_, ?_⟩
      · rw [List.length_cons, List.length_cons, hlen]
      · rw [List.flatMap_cons, hb, List.singleton_append, List.map_cons, hn, hns, List.map_cons]

theorem length_join {n : Nat} {ns : List Nat} (h : ns.length = 2 * n) : (join ns).length = n := by
  induction n generalizing ns with
  | zero =>
      rw [List.length_eq_zero_iff.mp h]
      rfl
  | succ n ih =>
      -- Two digits make one byte, and an odd number of them there is not.
      rcases ns with _ | ⟨high, _ | ⟨low, rest⟩⟩
      · cases h
      · cases h
      · rw [join, List.length_cons, ih]
        rw [List.length_cons, List.length_cons] at h
        omega

/-- Sixty-four digits are read as 32 bytes. -/
theorem SpellsHash.decode32 {text : String} (h : SpellsHash text) :
    ∃ hash, Hex.decode32 text = .ok hash := by
  rcases map_value?_of_digits h.digits with ⟨ns, hlen, hns⟩
  have henc : Utf8.encode text = text.toList.flatMap String.utf8EncodeChar := by
    rw [← Utf8.encode_ofList, String.ofList_toList]
  rw [← henc] at hns
  -- Each digit is one byte, so there are as many bytes as characters.
  have heven : (Utf8.encode text).length = 64 := by
    rw [← List.length_map value?, hns, List.length_map, hlen, h.length_eq]
  have hjoin : (join ns).length = 32 := length_join (hlen.trans h.length_eq)
  have hdecode : decode text = .ok (join ns) := by
    rw [decode, decodeBytes, if_neg (by omega), mapM_valueAt hns]
    rfl
  -- The text is read as the same bytes as the text that is written for them.
  have hsame : decode text = decode (encode (join ns)) := by rw [hdecode, decode_encode]
  refine ⟨⟨join ns, hjoin⟩, ?_⟩
  rw [Hex.decode32, hsame]
  exact decode32_encode ⟨join ns, hjoin⟩

theorem isDigit_digit {n : Nat} (h : n < 16) : IsDigit (digit n) := by
  have hall : ∀ n : Fin 16, IsDigit (digit n) := by decide
  exact hall ⟨n, h⟩

/-- What is written is what is read: the digits of 32 bytes are 64. -/
theorem spellsHash_encode (hash : Bytes32) : SpellsHash (encode hash.bytes) := by
  have hlist : (encode hash.bytes).toList = (values hash.bytes).map digit := String.toList_ofList
  constructor
  · rw [hlist, List.length_map, length_values, hash.length_eq]
  · intro c hc
    rw [hlist] at hc
    rcases List.mem_map.mp hc with ⟨n, hn, rfl⟩
    rcases List.mem_flatMap.mp hn with ⟨b, _, hb⟩
    have hbyte := b.toNat_lt
    -- The two digits of a byte are its halves.
    simp only [List.mem_cons, List.not_mem_nil, or_false] at hb
    rcases hb with rfl | rfl
    · exact isDigit_digit (by omega)
    · exact isDigit_digit (by omega)

end Hex

end CoinCommit
