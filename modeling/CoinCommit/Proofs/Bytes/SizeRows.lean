import CoinCommit.Proofs.Bytes.Reads

/-!
# Compact Sizes in a Row

A number says where it ends. A reader that stands in front of it, at any place of
any string, takes its bytes and no others; and bytes that are taken as a number
are the ones that are written for it. So nothing has to stand between numbers
that are written into one buffer. Read to the end, the buffer gives back the list
that was written, and no other buffer gives that list.

The reader of a row does not know how many numbers there are. It reads as long as
bytes are left, and it comes to an end because every number has at least one.

## Main definitions

* `Cursor.placeIn`: The place after the first bytes of a string.
* `CompactSize.writeAll`: Numbers written one after another into one buffer.
* `CompactSize.readAll`: The numbers up to the end.

## Theorems

* `CompactSize.length_rest_of_read`: A number that is read makes the rest shorter.
* `CompactSize.read_placeIn_iff`: What is read as a number at a place.
* `CompactSize.readAll_eq_ok_iff`: What is read as a row.
* `CompactSize.delimits_itself`: Numbers and rows have one form each.
-/

namespace CoinCommit

/-- The place after the first `k` bytes of a string. -/
def Cursor.placeIn (data : Bytes) (k : Nat) : Cursor := ⟨k, data.drop k⟩

namespace CompactSize

/-- Numbers written one after another, each behind what the buffer holds already. -/
def writeAll (ns : List UInt64) : Bytes := ns.foldl (fun buffer n => buffer ++ encode n) []

theorem writeAll_eq_flatMap (ns : List UInt64) : writeAll ns = ns.flatMap encode :=
  List.flatMap_eq_foldl.symm

theorem length_rest_of_read {n : UInt64} {size : Nat} {c c' : Cursor}
    (h : read c = .ok (n, size) c') : c'.rest.length < c.rest.length := by
  -- The form of a number has at least one byte.
  have hpos := length_encode_pos n
  rw [(eq_encode_of_read h).1, List.length_append]
  omega

/-- The numbers from here to the end; the error of the first one that cannot be read. -/
def readAll (c : Cursor) : Except ReadError (List UInt64) :=
  if c.rest = [] then .ok []
  else
    match _hread : read c with
    | .ok (n, _) c' => (readAll c').map fun ns => n :: ns
    | .error e _ => .error e
termination_by c.rest.length
decreasing_by exact length_rest_of_read _hread

/-- No numbers are read only where there are no bytes. -/
theorem readAll_eq_ok_nil_iff {c : Cursor} : readAll c = .ok [] ↔ c.rest = [] := by
  rw [readAll]
  by_cases hend : c.rest = []
  · rw [if_pos hend]
    exact iff_of_true rfl hend
  · rw [if_neg hend]
    refine iff_of_false ?_ hend
    -- There are bytes, so a row that is read has a number in front.
    split
    · rename_i n size c' hread
      rcases readAll c' with e | ns <;> exact nofun
    · exact nofun

/-- A row is its first number and the row from there on. -/
theorem readAll_eq_ok_cons_iff {c : Cursor} {n : UInt64} {ns : List UInt64} :
    readAll c = .ok (n :: ns) ↔ ∃ size c', read c = .ok (n, size) c' ∧ readAll c' = .ok ns := by
  rw [readAll]
  by_cases hend : c.rest = []
  · -- Nothing can be read at the end.
    rw [if_pos hend]
    refine iff_of_false nofun ?_
    rintro ⟨size, c', hread, _⟩
    have hshorter := length_rest_of_read hread
    rw [hend] at hshorter
    exact Nat.not_lt_zero _ hshorter
  · rw [if_neg hend]
    split
    · rename_i m size c' hread
      constructor
      · intro h
        -- A row whose rest cannot be read is not read.
        rcases hrow : readAll c' with e | ms
        · rw [hrow] at h
          cases h
        · rw [hrow] at h
          cases h
          exact ⟨size, c', hread, hrow⟩
      · rintro ⟨size', c'', hread', hrow⟩
        cases hread.symm.trans hread'
        rw [hrow]
        rfl
    · -- The first number cannot be read, and no row begins with it.
      rename_i e c' hread
      refine iff_of_false nofun ?_
      rintro ⟨size, c'', hread', _⟩
      cases hread.symm.trans hread'

/-- A row is read from the forms of its numbers, one behind the other, and from nothing else. -/
theorem readAll_eq_ok_iff {c : Cursor} {ns : List UInt64} :
    readAll c = .ok ns ↔ c.rest = ns.flatMap encode := by
  -- The place is arbitrary, since each number is read from where the one before it ends.
  induction ns generalizing c with
  | nil => rw [readAll_eq_ok_nil_iff, List.flatMap_nil]
  | cons n ns ih =>
      rw [readAll_eq_ok_cons_iff, List.flatMap_cons]
      constructor
      · rintro ⟨size, c', hread, hrow⟩
        rw [(eq_encode_of_read hread).1, ih.mp hrow]
      · intro hrest
        -- The form of the first number is in front, so that number is read.
        have hread := read_encode_append n c.offset (ns.flatMap encode)
        rw [← hrest] at hread
        exact ⟨_, _, hread, ih.mpr rfl⟩

/-- At a place of a string a number is read if the bytes there are its form, and the reader stops
    behind them. -/
theorem read_placeIn_iff {data : Bytes} {k : Nat} {n : UInt64} {size : Nat} {c' : Cursor} :
    read (Cursor.placeIn data k) = .ok (n, size) c' ↔
      (data.drop k).take size = encode n ∧ size = (encode n).length ∧
        c' = Cursor.placeIn data (k + size) := by
  refine (reads_read _ _ _).trans ?_
  constructor
  · rintro ⟨hsize, hrest, hoff⟩
    have hdrop : data.drop k = encode n ++ c'.rest := hrest
    simp only at hsize hoff
    subst hsize
    refine ⟨?_, rfl, ?_⟩
    · -- What is read at the place is what stands there in front.
      rw [hdrop, List.take_left]
    · rcases c' with ⟨offset, rest⟩
      rw [Cursor.placeIn, ← List.drop_drop, hdrop, List.drop_left]
      exact congrArg (Cursor.mk · rest) hoff
  · rintro ⟨htake, rfl, rfl⟩
    refine ⟨rfl, ?_, rfl⟩
    change data.drop k = encode n ++ data.drop (k + (encode n).length)
    -- The string from there on is the form and what is behind it.
    rw [← List.drop_drop]
    nth_rewrite 1 [← List.take_append_drop (encode n).length (data.drop k)]
    rw [htake]

/-- A number behind anything and in front of anything is read from its form, and the reader stops
    right behind that. What is read as a number, at any place of any string, is the form of that
    number. So a buffer into which numbers are written is read as their list to the last byte, and
    no other string is read as that list. -/
theorem delimits_itself :
    (∀ (n : UInt64) (p s : Bytes),
      read (Cursor.placeIn (p ++ encode n ++ s) p.length) =
          .ok (n, (encode n).length)
            (Cursor.placeIn (p ++ encode n ++ s) (p ++ encode n).length) ∧
        (Cursor.placeIn (p ++ encode n ++ s) (p ++ encode n).length).rest = s) ∧
    (∀ (data : Bytes) (k : Nat) (n : UInt64) (size : Nat) (c' : Cursor),
      read (Cursor.placeIn data k) = .ok (n, size) c' ↔
        (data.drop k).take size = encode n ∧ size = (encode n).length ∧
          c' = Cursor.placeIn data (k + size)) ∧
    ∀ (ns : List UInt64) (data : Bytes),
      readAll (Cursor.start data) = .ok ns ↔ data = writeAll ns := by
  refine ⟨fun n p s => ⟨?_, List.drop_left⟩, fun data k n size c' => read_placeIn_iff,
    fun ns data => ?_⟩
  · rw [read_placeIn_iff]
    refine ⟨?_, rfl, ?_⟩
    · rw [List.append_assoc, List.drop_left, List.take_left]
    · rw [List.length_append]
  · rw [readAll_eq_ok_iff, writeAll_eq_flatMap]
    exact Iff.rfl

/-- The last number of one byte, the first of three and the first of five. -/
example : writeAll [252, 253, 65536] = [0xfc, 0xfd, 0xfd, 0, 0xfe, 0, 0, 1, 0] := by decide

end CompactSize

end CoinCommit
