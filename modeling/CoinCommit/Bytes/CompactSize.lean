import CoinCommit.Bytes.Cursor

/-!
# Compact Sizes

Counts and lengths are written with as few bytes as they need: a number below
253 as itself, a larger one as a tag byte and two, four or eight bytes. Each
number has this one form; a reader refuses a number that is written with a
wider payload than it needs.

## Main definitions

* `CompactSize.encode`: The form of a number.
* `CompactSize.sized`: A byte string with its length in front.
* `CompactSize.read`: The number in front, with the number of bytes it took.

## Theorems

* `CompactSize.read_encode_append`: A number is read back from its form,
  whatever follows.
* `CompactSize.eq_encode_of_read`: What is read as a number is its form.
-/

namespace CoinCommit

namespace CompactSize

/-- The shortest form of a number. -/
def encode (n : UInt64) : Bytes :=
  if n < 0xfd then [n.toUInt8]
  else if n ≤ 0xffff then 0xfd :: LittleEndian.encode 2 n.toNat
  else if n ≤ 0xffffffff then 0xfe :: LittleEndian.encode 4 n.toNat
  else 0xff :: LittleEndian.encode 8 n.toNat

/-- The form of a length. -/
def ofLength (n : Nat) : Bytes := encode (UInt64.ofNat n)

/-- A byte string with its length in front. -/
def sized (bs : Bytes) : Bytes := ofLength bs.length ++ bs

/-- A number after its tag: a payload of a given width, refused below the least number that needs
    this width. The payload counts as read even then. -/
def payload (item : Item) (width : Nat) (least : UInt64) : Read (UInt64 × Nat) := do
  let bs ← Cursor.takeBytes item width
  let n := LittleEndian.toUInt64 bs
  if n < least then throw .notMinimal
  return (n, width + 1)

/-- The number in front of the cursor, with the number of bytes it took. -/
def read : Read (UInt64 × Nat) := do
  let tag ← Cursor.u8
  if tag < 0xfd then return (tag.toUInt64, 1)
  else if tag = 0xfd then payload .u16 2 0xfd
  else if tag = 0xfe then payload .u32 4 0x10000
  else payload .u64 8 0x100000000

theorem length_encode_pos (n : UInt64) : 0 < (encode n).length := by
  unfold encode
  split
  · exact Nat.one_pos
  · split
    · exact Nat.succ_pos _
    · split <;> exact Nat.succ_pos _

/-- A payload that needs its width is read back, and what follows it is left. -/
theorem payload_append (item : Item) (width : Nat) {least n : UInt64} (k : Nat) (s : Bytes)
    (hl : ¬ n < least) (h : n.toNat < LittleEndian.capacity width) :
    payload item width least ⟨k, LittleEndian.encode width n.toNat ++ s⟩ =
      .ok (n, width + 1) ⟨k + width, s⟩ := by
  have ht := Cursor.takeBytes_append item k (LittleEndian.encode width n.toNat) s
  rw [LittleEndian.length_encode] at ht
  simp only [payload, bind, EStateM.bind, ht, LittleEndian.toUInt64_encode_of_lt h, hl, if_false,
    pure, EStateM.pure]

/-- A payload that is read has the one form of its number in its width. -/
theorem payload_eq_ok {item : Item} {width : Nat} {least n : UInt64} {size : Nat} {c c' : Cursor}
    (hw : width ≤ 8) (h : payload item width least c = .ok (n, size) c') :
    c.rest = LittleEndian.encode width n.toNat ++ c'.rest ∧ ¬ n < least ∧ size = width + 1 ∧
      n.toNat < LittleEndian.capacity width ∧ c'.offset = c.offset + width := by
  simp only [payload, bind, EStateM.bind] at h
  split at h
  · rename_i bs c₁ ht
    -- The bytes were there, so it is the number that may be refused.
    obtain ⟨hlen, hrest, hoff⟩ := Cursor.takeBytes_eq_ok ht
    split at h
    · cases h
    · rename_i hl
      cases h
      -- The bytes are those of the number, since there are eight at most.
      have he : LittleEndian.encode width (LittleEndian.toUInt64 bs).toNat = bs := by
        rw [← hlen]
        exact LittleEndian.encode_toUInt64 (by omega)
      have hlt : (LittleEndian.toUInt64 bs).toNat < LittleEndian.capacity width := by
        rw [LittleEndian.toUInt64, UInt64.toNat_ofNat', ← hlen]
        exact Nat.lt_of_le_of_lt (Nat.mod_le _ _) (LittleEndian.decode_lt bs)
      exact ⟨by rw [he, hrest], hl, rfl, hlt, hoff⟩
  · cases h

theorem read_cons (k : Nat) (b : UInt8) (s : Bytes) :
    read ⟨k, b :: s⟩ =
      if b < 0xfd then .ok (b.toUInt64, 1) ⟨k + 1, s⟩
      else if b = 0xfd then payload .u16 2 0xfd ⟨k + 1, s⟩
      else if b = 0xfe then payload .u32 4 0x10000 ⟨k + 1, s⟩
      else payload .u64 8 0x100000000 ⟨k + 1, s⟩ := by
  simp only [read, bind, EStateM.bind, Cursor.u8_cons]
  -- The tag alone says how many bytes are read.
  split
  · rfl
  · split
    · rfl
    · split <;> rfl

/-- A number below 253 is its own form. -/
theorem encode_small {n : UInt64} (h : n < 0xfd) : encode n = [n.toUInt8] := if_pos h

/-- The form of a number that needs two bytes and no more. -/
theorem encode_two {n : UInt64} (hl : ¬ n < 0xfd) (h : n.toNat < 65536) :
    encode n = 0xfd :: LittleEndian.encode 2 n.toNat := by
  have hle : n ≤ 0xffff := show n.toNat ≤ 65535 by omega
  rw [encode, if_neg hl, if_pos hle]

/-- The form of a number that needs four bytes and no more. -/
theorem encode_four {n : UInt64} (hl : ¬ n < 0x10000) (h : n.toNat < 4294967296) :
    encode n = 0xfe :: LittleEndian.encode 4 n.toNat := by
  have hge : ¬ n.toNat < 65536 := hl
  -- Whoever needs four bytes fits into neither of the shorter forms.
  have h1 : ¬ n < 0xfd := show ¬ n.toNat < 253 by omega
  have h2 : ¬ n ≤ 0xffff := show ¬ n.toNat ≤ 65535 by omega
  have h3 : n ≤ 0xffffffff := show n.toNat ≤ 4294967295 by omega
  rw [encode, if_neg h1, if_neg h2, if_pos h3]

/-- The form of a number that needs eight bytes. -/
theorem encode_eight {n : UInt64} (hl : ¬ n < 0x100000000) :
    encode n = 0xff :: LittleEndian.encode 8 n.toNat := by
  have hge : ¬ n.toNat < 4294967296 := hl
  have h1 : ¬ n < 0xfd := show ¬ n.toNat < 253 by omega
  have h2 : ¬ n ≤ 0xffff := show ¬ n.toNat ≤ 65535 by omega
  have h3 : ¬ n ≤ 0xffffffff := show ¬ n.toNat ≤ 4294967295 by omega
  rw [encode, if_neg h1, if_neg h2, if_neg h3]

/-- Every number is read back from its form, and what follows it is left. -/
theorem read_encode_append (n : UInt64) (k : Nat) (s : Bytes) :
    read ⟨k, encode n ++ s⟩ =
      .ok (n, (encode n).length) ⟨k + (encode n).length, s⟩ := by
  have hn := n.toNat_lt
  unfold encode
  split
  · -- The number is its own tag.
    rename_i h
    have hlt : n.toNat < 253 := h
    have hnat : n.toUInt8.toNat = n.toNat := by
      rw [UInt64.toNat_toUInt8]
      omega
    have hb : n.toUInt8 < 0xfd := by
      rw [UInt8.lt_iff_toNat_lt, hnat]
      exact hlt
    have hv : n.toUInt8.toUInt64 = n := by
      apply UInt64.toNat_inj.mp
      rw [UInt8.toNat_toUInt64, hnat]
    rw [List.singleton_append, read_cons, if_pos hb, hv, List.length_singleton]
  · -- The other forms have a tag of their own and a payload that fits.
    rename_i h
    split
    · rename_i h2
      have hlt : n.toNat ≤ 65535 := h2
      rw [List.cons_append, read_cons, if_neg (by decide), if_pos rfl, payload_append .u16 2 _ _ h
        (show n.toNat < 65536 by omega), List.length_cons, LittleEndian.length_encode,
        Nat.add_assoc, Nat.add_comm 1 2]
    · rename_i h2
      have hge : ¬ n < 0x10000 := fun hlt => h2 (show n.toNat ≤ 65535 from
        Nat.le_of_lt_succ (show n.toNat < 65536 from hlt))
      split
      · rename_i h3
        have hlt : n.toNat ≤ 4294967295 := h3
        rw [List.cons_append, read_cons, if_neg (by decide), if_neg (by decide), if_pos rfl,
          payload_append .u32 4 _ _ hge (show n.toNat < 4294967296 by omega), List.length_cons,
          LittleEndian.length_encode, Nat.add_assoc, Nat.add_comm 1 4]
      · rename_i h3
        have hge : ¬ n < 0x100000000 := fun hlt => h3 (show n.toNat ≤ 4294967295 from
          Nat.le_of_lt_succ (show n.toNat < 4294967296 from hlt))
        rw [List.cons_append, read_cons, if_neg (by decide), if_neg (by decide),
          if_neg (by decide), payload_append .u64 8 _ _ hge
          (show n.toNat < 18446744073709551616 from hn), List.length_cons,
          LittleEndian.length_encode, Nat.add_assoc, Nat.add_comm 1 8]

/-- Whatever is read as a number is the form of that number. -/
theorem eq_encode_of_read {n : UInt64} {size : Nat} {c c' : Cursor}
    (h : read c = .ok (n, size) c') :
    c.rest = encode n ++ c'.rest ∧ size = (encode n).length ∧ c'.offset = c.offset + size := by
  obtain ⟨k, bs⟩ := c
  cases bs with
  | nil => cases h
  | cons b s =>
      rw [read_cons] at h
      split at h
      · -- A byte below 253 is read as itself.
        rename_i hb
        cases h
        have hn : b.toUInt64 < 0xfd := by
          rw [UInt64.lt_iff_toNat_lt, UInt8.toNat_toUInt64]
          exact hb
        have he : b.toUInt64.toUInt8 = b := UInt8.toUInt8_toUInt64 b
        rw [encode_small hn, he]
        exact ⟨rfl, rfl, rfl⟩
      · rename_i hb
        split at h
        · -- Two bytes follow, and the number needs them.
          rename_i hb2
          obtain ⟨hrest, hl, hs, hlt, hoff⟩ := payload_eq_ok (by omega) h
          rw [encode_two hl hlt, hb2, List.cons_append, ← hrest, List.length_cons,
            LittleEndian.length_encode, hoff, hs]
          exact ⟨rfl, rfl, show k + 1 + 2 = k + (2 + 1) by omega⟩
        · rename_i hb2
          split at h
          · rename_i hb3
            obtain ⟨hrest, hl, hs, hlt, hoff⟩ := payload_eq_ok (by omega) h
            rw [encode_four hl hlt, hb3, List.cons_append, ← hrest, List.length_cons,
              LittleEndian.length_encode, hoff, hs]
            exact ⟨rfl, rfl, show k + 1 + 4 = k + (4 + 1) by omega⟩
          · rename_i hb3
            -- No other tag is left.
            have hb4 : b = 0xff := by
              have h1 : ¬ b.toNat < 253 := hb
              have h2 : b.toNat ≠ 253 := fun he => hb2 (UInt8.toNat_inj.mp he)
              have h3 : b.toNat ≠ 254 := fun he => hb3 (UInt8.toNat_inj.mp he)
              have hlt := b.toNat_lt
              exact UInt8.toNat_inj.mp (show b.toNat = 255 by omega)
            obtain ⟨hrest, hl, hs, hlt, hoff⟩ := payload_eq_ok (by omega) h
            rw [encode_eight hl, hb4, List.cons_append, ← hrest, List.length_cons,
              LittleEndian.length_encode, hoff, hs]
            exact ⟨rfl, rfl, show k + 1 + 8 = k + (8 + 1) by omega⟩

end CompactSize

end CoinCommit
