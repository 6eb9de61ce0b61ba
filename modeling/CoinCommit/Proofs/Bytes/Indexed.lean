import CoinCommit.Proofs.Bytes.Outcomes

/-!
# Reading by Index

A cursor has the bytes ahead at hand, and so it cannot look anywhere else. A
reader that keeps the whole string and the index of the next byte moves no bytes,
but it computes with machine words, and three things may go wrong at every read:
the number of bytes that are left, the end of those that are asked for, and the
slice between two indices. All three are checked here, and where one of them does
not exist the reader fails without an error.

None of them ever does. The bytes that are left are counted before anything is
added to the index, so the sum is taken only if it is not beyond the end of the
string, whatever is asked for; and a string that is held in memory has fewer bytes
than there are words. `Agree` compares the two readers where they end, and has no
case for a failure without an error.

## Main definitions

* `IndexedReader`, `IndexedRead`: A string with an index, and a step that moves it.
* `IndexedReader.takeBytes`: The next bytes, all of them or none.
* `PlainRead.runIndexed`, `CompactSize.readIndexed`: The reads.
* `IndexedReader.Agree`: Both readers end in the same way at the same place.

## Theorems

* `IndexedReader.takeBytes_of_le`, `takeBytes_of_lt`: What is taken, and when.
* `PlainRead.agree`, `CompactSize.agree`: Every read agrees with the one of a cursor.
-/

namespace CoinCommit

/-- A byte string and the index of its next byte, which is a machine word. -/
structure IndexedReader where
  bytes : Array UInt8
  offset : USize

/-- A step of an indexed reader. It may fail with the error of a read, and fails without one where
    a number is no word or an index is not in the string. -/
abbrev IndexedRead := EStateM (Option ReadError) IndexedReader

namespace IndexedReader

/-- Looking at the reader moves nothing. -/
theorem get_apply (r : IndexedReader) : (get : IndexedRead IndexedReader) r = .ok r r := rfl

/-- What is there; a failure without an error if nothing is. -/
def present {α : Type} : Option α → IndexedRead α
  | some a => pure a
  | none => throw none

/-- The difference of two words, if it is a word. -/
def minus? (a b : USize) : Option USize := if b ≤ a then some (a - b) else none

/-- The sum of two words, if it is a word. -/
def plus? (a b : USize) : Option USize :=
  if a.toNat + b.toNat < USize.size then some (a + b) else none

/-- The bytes from one index to another, if both are in the array and in this order. -/
def slice? (bytes : Array UInt8) (first last : USize) : Option Bytes :=
  if first ≤ last ∧ last.toNat ≤ bytes.size then
    some (bytes.extract first.toNat last.toNat).toList
  else none

/-- The number of bytes from the index on. -/
def remaining? (r : IndexedReader) : Option USize := minus? (USize.ofNat r.bytes.size) r.offset

/-- The next `n` bytes; an error that moves nothing if fewer are left. -/
def takeBytes (item : Item) (n : USize) : IndexedRead Bytes := do
  let r ← get
  let left ← present r.remaining?
  if left < n then throw (some (.endOfInput item))
  let last ← present (plus? r.offset n)
  let taken ← present (slice? r.bytes r.offset last)
  set { r with offset := last }
  return taken

/-- How many bytes have been read since the index was `first`. -/
def takenSince (first : USize) : IndexedRead Nat := do
  let r ← get
  let taken ← present (minus? r.offset first)
  return taken.toNat

/-- The reader before byte `k` of a string. -/
def placeIn (data : Bytes) (k : Nat) : IndexedReader := ⟨data.toArray, USize.ofNat k⟩

variable {data : Bytes} {k : Nat} {n : USize}

theorem ofNat_le_ofNat_add (k m : Nat) (h : k + m < USize.size) :
    USize.ofNat k ≤ USize.ofNat (k + m) := by
  rw [USize.le_iff_toNat_le, USize.toNat_ofNat_of_lt' h, USize.toNat_ofNat_of_lt' (by omega)]
  exact Nat.le_add_right k m

theorem minus?_ofNat (k m : Nat) (h : k + m < USize.size) :
    minus? (USize.ofNat (k + m)) (USize.ofNat k) = some (USize.ofNat m) := by
  have hle := ofNat_le_ofNat_add k m h
  have hdiff : USize.ofNat (k + m) - USize.ofNat k = USize.ofNat m := by
    -- Words are equal if their numbers are, and nothing wraps around here.
    apply USize.toNat_inj.mp
    rw [USize.toNat_sub_of_le _ _ hle, USize.toNat_ofNat_of_lt' h,
      USize.toNat_ofNat_of_lt' (by omega), USize.toNat_ofNat_of_lt' (by omega),
      Nat.add_sub_cancel_left]
  rw [minus?, if_pos hle, hdiff]

theorem remaining?_placeIn (hsize : data.length < USize.size) (hk : k ≤ data.length) :
    (placeIn data k).remaining? = some (USize.ofNat (data.length - k)) := by
  -- What is left and what is read make up the string, which has fewer bytes than there are words.
  have hsum : k + (data.length - k) = data.length := by omega
  have hleft := minus?_ofNat k (data.length - k) (by omega)
  rw [hsum] at hleft
  rw [remaining?, placeIn, List.size_toArray, hleft]

/-- The end of bytes that are there is a word, and it is not before their start. -/
theorem plus?_placeIn (hsize : data.length < USize.size) (h : k + n.toNat ≤ data.length) :
    plus? (USize.ofNat k) n = some (USize.ofNat (k + n.toNat)) := by
  have hoffset : (USize.ofNat k).toNat = k := USize.toNat_ofNat_of_lt' (by omega)
  have hfits : k + n.toNat < USize.size := by omega
  have hsum : USize.ofNat k + n = USize.ofNat (k + n.toNat) := by
    apply USize.toNat_inj.mp
    rw [USize.toNat_add, hoffset, USize.toNat_ofNat_of_lt' hfits]
    exact Nat.mod_eq_of_lt hfits
  rw [plus?, hoffset, if_pos hfits, hsum]

theorem slice?_placeIn (hsize : data.length < USize.size) {m : Nat} (h : k + m ≤ data.length) :
    slice? data.toArray (USize.ofNat k) (USize.ofNat (k + m)) = some ((data.drop k).take m) := by
  have hle := ofNat_le_ofNat_add k m (by omega)
  rw [slice?, USize.toNat_ofNat_of_lt' (by omega), USize.toNat_ofNat_of_lt' (by omega),
    if_pos ⟨hle, h⟩, Array.toList_extract]
  simp only [List.extract_eq_take_drop, Nat.add_sub_cancel_left]

theorem takenSince_placeIn (hsize : data.length < USize.size) {m : Nat} (h : k + m ≤ data.length) :
    takenSince (placeIn data k).offset (placeIn data (k + m)) = .ok m (placeIn data (k + m)) := by
  -- Both indices are words, and so is their difference.
  have hword : (USize.ofNat m).toNat = m := USize.toNat_ofNat_of_lt' (by omega)
  simp only [takenSince, bind, EStateM.bind, get_apply, placeIn, present, pure, EStateM.pure,
    minus?_ofNat k m (Nat.lt_of_le_of_lt h hsize), hword]

theorem takeBytes_of_le (item : Item) (hsize : data.length < USize.size)
    (h : k + n.toNat ≤ data.length) :
    takeBytes item n (placeIn data k) =
      .ok ((data.drop k).take n.toNat) (placeIn data (k + n.toNat)) := by
  have hleft := remaining?_placeIn hsize (show k ≤ data.length by omega)
  -- As many bytes as are asked for are left.
  have henough : ¬ USize.ofNat (data.length - k) < n := by
    rw [USize.lt_iff_toNat_lt, USize.toNat_ofNat_of_lt' (by omega)]
    omega
  rw [takeBytes]
  simp only [bind, EStateM.bind, get_apply, hleft, present, pure, EStateM.pure, henough, if_false]
  -- Enough is left, so the sum is a word and the slice is in the string.
  simp only [placeIn, plus?_placeIn hsize h, slice?_placeIn hsize h, EStateM.pure]
  rfl

theorem takeBytes_of_lt (item : Item) (hsize : data.length < USize.size) (hk : k ≤ data.length)
    (h : data.length < k + n.toNat) :
    takeBytes item n (placeIn data k) = .error (some (.endOfInput item)) (placeIn data k) := by
  have hleft := remaining?_placeIn hsize hk
  -- Fewer are left, and the reader fails before any sum is made.
  have hshort : USize.ofNat (data.length - k) < n := by
    rw [USize.lt_iff_toNat_lt, USize.toNat_ofNat_of_lt' (by omega)]
    omega
  rw [takeBytes]
  simp only [bind, EStateM.bind, get_apply, hleft, present, pure, EStateM.pure, hshort, if_true]
  rfl

/-- Whether a step of a cursor and one of an indexed reader have ended in the same way, both at the
    same place of the string and not beyond its end. -/
inductive Agree (data : Bytes) {α : Type} : EStateM.Result ReadError Cursor α →
    EStateM.Result (Option ReadError) IndexedReader α → Prop where
  | ok (a : α) (k : Nat) (hk : k ≤ data.length) :
      Agree data (.ok a (Cursor.placeIn data k)) (.ok a (placeIn data k))
  | error (e : ReadError) (k : Nat) (hk : k ≤ data.length) :
      Agree data (.error e (Cursor.placeIn data k)) (.error (some e) (placeIn data k))

end IndexedReader

open IndexedReader

namespace PlainRead

/-- How many bytes the read takes, as a word. -/
def wordWidth : PlainRead → USize
  | .u8 => 1
  | .u16 => 2
  | .u32 => 4
  | .u64 => 8
  | .i64 => 8
  | .bytes32 => 32
  | .bytes n => n

theorem toNat_wordWidth (read : PlainRead) : read.wordWidth.toNat = read.width := by
  -- A word has at least 32 bits.
  have hword : ∀ m : Nat, m ≤ 32 → m < USize.size := fun m hm =>
    Nat.lt_of_lt_of_le (show m < 2 ^ 32 by omega) USize.le_size
  cases read with
  | u8 => exact USize.toNat_ofNat_of_lt (hword 1 (by decide))
  | u16 => exact USize.toNat_ofNat_of_lt (hword 2 (by decide))
  | u32 => exact USize.toNat_ofNat_of_lt (hword 4 (by decide))
  | u64 => exact USize.toNat_ofNat_of_lt (hword 8 (by decide))
  | i64 => exact USize.toNat_ofNat_of_lt (hword 8 (by decide))
  | bytes32 => exact USize.toNat_ofNat_of_lt (hword 32 (by decide))
  | bytes n => rfl

/-- The read of an indexed reader. The bytes that are taken have to be as many as were asked for. -/
def runIndexed (read : PlainRead) : IndexedRead read.Value := do
  let taken ← IndexedReader.takeBytes read.item read.wordWidth
  if h : taken.length = read.width then return read.ofBytes taken h
  else throw none

variable {data : Bytes} {k : Nat}

theorem runIndexed_of_le (read : PlainRead) (hsize : data.length < USize.size)
    (h : k + read.width ≤ data.length) :
    read.runIndexed (placeIn data k) =
      .ok (read.ofBytes ((data.drop k).take read.width) (read.length_take_drop h))
        (placeIn data (k + read.width)) := by
  have hlength := read.length_take_drop h
  -- The bytes taken are as many as the width, so the last check holds.
  have hwidth := toNat_wordWidth read
  have hfits : k + read.wordWidth.toNat ≤ data.length := by
    rw [hwidth]
    exact h
  have htake := takeBytes_of_le read.item hsize hfits
  rw [hwidth] at htake
  simp only [runIndexed, bind, EStateM.bind, htake, hlength, dite_true]
  rfl

theorem runIndexed_of_lt (read : PlainRead) (hsize : data.length < USize.size)
    (hk : k ≤ data.length) (h : data.length < k + read.width) :
    read.runIndexed (placeIn data k) =
      .error (some (.endOfInput read.item)) (placeIn data k) := by
  rw [← toNat_wordWidth] at h
  simp only [runIndexed, bind, EStateM.bind, takeBytes_of_lt read.item hsize hk h]

/-- A plain read gives the same value or error as the one of a cursor, at the same place. -/
theorem agree (read : PlainRead) (hsize : data.length < USize.size) (hk : k ≤ data.length) :
    Agree data (read.run (Cursor.placeIn data k)) (read.runIndexed (placeIn data k)) := by
  by_cases h : k + read.width ≤ data.length
  · rw [read.run_of_le h, read.runIndexed_of_le hsize h]
    exact .ok _ _ h
  · have hshort := Nat.lt_of_not_le h
    rw [read.run_of_lt hk hshort, read.runIndexed_of_lt hsize hk hshort]
    exact .error _ _ hk

end PlainRead

namespace CompactSize

variable {data : Bytes} {k : Nat}

/-- A number that is read as a word of some width, and whether it needs that width. -/
def widened (read : PlainRead) (word : read.Value → UInt64) (needs : UInt64 → Bool) :
    IndexedRead (UInt64 × Bool) := do
  let n ← word <$> read.runIndexed
  return (n, needs n)

/-- The number behind a tag, and whether it needs its payload. -/
def numberAfter (tag : UInt8) : IndexedRead (UInt64 × Bool) :=
  if tag ≤ 0xfc then return (tag.toUInt64, true)
  else if tag = 0xfd then widened .u16 UInt16.toUInt64 fun n => decide (0xfd ≤ n)
  else if tag = 0xfe then widened .u32 UInt32.toUInt64 fun n => decide (0xffff < n)
  else widened .u64 id fun n => decide (0xffffffff < n)

/-- The number at the index. How many bytes it took is told from the index before and after. -/
def readIndexed : IndexedRead (UInt64 × Nat) := do
  let first := (← get).offset
  let tag ← PlainRead.u8.runIndexed
  let (n, needed) ← numberAfter tag
  if !needed then throw (some .notMinimal)
  let size ← takenSince first
  return (n, size)

theorem widened_of_le (read : PlainRead) (word : read.Value → UInt64) (needs : UInt64 → Bool)
    (hword : ∀ bs h, word (read.ofBytes bs h) = LittleEndian.toUInt64 bs)
    (hsize : data.length < USize.size) (h : k + read.width ≤ data.length) :
    widened read word needs (placeIn data k) =
      .ok (LittleEndian.toUInt64 ((data.drop k).take read.width),
          needs (LittleEndian.toUInt64 ((data.drop k).take read.width)))
        (placeIn data (k + read.width)) := by
  simp only [widened, Functor.map, EStateM.map, bind, EStateM.bind,
    read.runIndexed_of_le hsize h, hword]
  rfl

theorem widened_of_lt (read : PlainRead) (word : read.Value → UInt64) (needs : UInt64 → Bool)
    (hsize : data.length < USize.size) (hk : k ≤ data.length) (h : data.length < k + read.width) :
    widened read word needs (placeIn data k) =
      .error (some (.endOfInput read.item)) (placeIn data k) := by
  simp only [widened, Functor.map, EStateM.map, bind, EStateM.bind,
    read.runIndexed_of_lt hsize hk h]

theorem numberAfter_of_none {tag : UInt8} (h : payload? tag = none) :
    numberAfter tag = pure (tag.toUInt64, true) := by
  have hle : tag ≤ 0xfc := Nat.le_of_lt_succ (payload?_eq_none_iff.mp h)
  rw [numberAfter, if_pos hle]

/-- Behind a tag with a payload a number of its width is read, which is needed from the least number
    of the payload on. -/
theorem exists_widened {tag : UInt8} {p : Payload} (h : payload? tag = some p) :
    ∃ (read : PlainRead) (word : read.Value → UInt64) (needs : UInt64 → Bool),
      numberAfter tag = widened read word needs ∧ read.item = p.item ∧ read.width = p.width ∧
        (∀ bs h, word (read.ofBytes bs h) = LittleEndian.toUInt64 bs) ∧
          ∀ n, needs n = true ↔ ¬ n < p.least := by
  have hlarge : ¬ tag < 0xfd := by
    rw [← payload?_eq_none_iff, h]
    -- A tag up to 0xfc is the number, so this one is larger.
    exact Option.some_ne_none p
  have hnot : ¬ tag ≤ 0xfc := fun hle => hlarge (Nat.lt_succ_of_le hle)
  -- Both sides go through the tags in the same order, and a word of eight bytes is not widened.
  rw [payload?, if_neg hlarge] at h
  rw [numberAfter, if_neg hnot]
  split at h
  · rename_i htag
    cases h
    rw [if_pos htag]
    refine ⟨.u16, _, _, rfl, rfl, rfl, fun bs hbs => ?_, fun n => ?_⟩
    · refine LittleEndian.eq_toUInt64_of_toNat (hbs ▸ by decide) ?_
      rw [UInt16.toNat_toUInt64]
      exact PlainRead.means_ofBytes .u16 bs hbs
    · rw [decide_eq_true_iff, UInt64.not_lt]
  · rename_i htag
    rw [if_neg htag]
    split at h
    · rename_i htag2
      cases h
      rw [if_pos htag2]
      refine ⟨.u32, _, _, rfl, rfl, rfl, fun bs hbs => ?_, fun n => ?_⟩
      · refine LittleEndian.eq_toUInt64_of_toNat (hbs ▸ by decide) ?_
        rw [UInt32.toNat_toUInt64]
        exact PlainRead.means_ofBytes .u32 bs hbs
      · rw [decide_eq_true_iff, UInt64.not_lt]
        exact Nat.lt_iff_add_one_le
    · rename_i htag2
      cases h
      rw [if_neg htag2]
      refine ⟨.u64, _, _, rfl, rfl, rfl, fun bs hbs => rfl, fun n => ?_⟩
      rw [decide_eq_true_iff, UInt64.not_lt]
      exact Nat.lt_iff_add_one_le

theorem runIndexed_tag (hsize : data.length < USize.size) (hlt : k < data.length) :
    PlainRead.u8.runIndexed (placeIn data k) = .ok data[k] (placeIn data (k + 1)) := by
  have hbyte : (data.drop k).take 1 = [data[k]] := by
    rw [List.drop_eq_getElem_cons hlt]
    rfl
  rw [PlainRead.u8.runIndexed_of_le hsize hlt]
  congr
  -- The one byte that is read is the number it stands for.
  apply UInt8.toNat_inj.mp
  refine (PlainRead.means_ofBytes .u8 _ _).trans ?_
  change LittleEndian.decode ((data.drop k).take 1) = _
  rw [hbyte]
  rfl

/-- Behind the tag it is known whether the number is refused, and how many bytes it took. -/
theorem readIndexed_of_ok (hsize : data.length < USize.size) (hlt : k < data.length) {n : UInt64}
    {needed : Bool} (width : Nat) (hfits : k + (1 + width) ≤ data.length)
    (h : numberAfter data[k] (placeIn data (k + 1)) =
      .ok (n, needed) (placeIn data (k + (1 + width)))) :
    readIndexed (placeIn data k) =
      if needed then .ok (n, 1 + width) (placeIn data (k + (1 + width)))
      else .error (some .notMinimal) (placeIn data (k + (1 + width))) := by
  have htaken := takenSince_placeIn hsize hfits
  simp only [readIndexed, bind, EStateM.bind, get_apply, runIndexed_tag hsize hlt, h]
  cases needed with
  | true =>
      simp only [Bool.not_true, Bool.false_eq_true, if_false, if_true, pure, EStateM.bind, htaken]
      rfl
  | false => rfl

theorem readIndexed_of_error (hsize : data.length < USize.size) (hlt : k < data.length)
    {e : Option ReadError} {r : IndexedReader}
    (h : numberAfter data[k] (placeIn data (k + 1)) = .error e r) :
    readIndexed (placeIn data k) = .error e r := by
  simp only [readIndexed, bind, EStateM.bind, get_apply, runIndexed_tag hsize hlt, h]

theorem readIndexed_length (hsize : data.length < USize.size) :
    readIndexed (placeIn data data.length) =
      .error (some (.endOfInput .u8)) (placeIn data data.length) := by
  have htag := PlainRead.u8.runIndexed_of_lt hsize (Nat.le_refl _) (Nat.lt_succ_self _)
  simp only [readIndexed, bind, EStateM.bind, get_apply, htag]
  rfl

/-- A number is read as it is from a cursor, or refused where a cursor refuses it. -/
theorem agree (hsize : data.length < USize.size) (hk : k ≤ data.length) :
    Agree data (read (Cursor.placeIn data k)) (readIndexed (placeIn data k)) := by
  rcases Nat.eq_or_lt_of_le hk with rfl | hlt
  · -- At the end of the string there is no tag for either.
    rw [read_placeIn_length, readIndexed_length hsize]
    exact .error _ _ hk
  · rw [Cursor.placeIn_of_lt hlt, read_cons_eq]
    rcases hpayload : payload? data[k] with _ | p
    · -- The tag is the number, and it needed no payload.
      have hnumber := congrFun (numberAfter_of_none hpayload) (placeIn data (k + 1))
      rw [readIndexed_of_ok hsize hlt 0 hlt hnumber, if_pos rfl]
      exact .ok _ _ hlt
    · change Agree data (payload p.item p.width p.least (Cursor.placeIn data (k + 1))) _
      rcases exists_widened hpayload with ⟨read, word, needs, hafter, hitem, hwidth, hword, hneeds⟩
      rw [← hitem, ← hwidth]
      by_cases hfits : k + 1 + read.width ≤ data.length
      · -- Both have the same number, and it needs its width for one if it does for the other.
        have hnumber := widened_of_le read word needs hword hsize hfits
        rw [← hafter, Nat.add_assoc] at hnumber
        rw [payload_of_le read.item p.least hfits, Nat.add_assoc,
          readIndexed_of_ok hsize hlt read.width (by omega) hnumber]
        generalize LittleEndian.toUInt64 ((data.drop (k + 1)).take read.width) = n
        by_cases hsmall : n < p.least
        · rw [if_pos hsmall, if_neg fun hneeded => (hneeds n).mp hneeded hsmall]
          exact .error _ _ (by omega)
        · rw [if_neg hsmall, if_pos ((hneeds n).mpr hsmall)]
          exact .ok _ _ (by omega)
      · -- The payload is cut short for both, behind the tag.
        have hshort := Nat.lt_of_not_le hfits
        have hnumber := widened_of_lt read word needs hsize hlt hshort
        rw [← hafter] at hnumber
        rw [payload_of_lt read.item p.least hlt hshort, readIndexed_of_error hsize hlt hnumber]
        exact .error _ _ hlt

end CompactSize

end CoinCommit
