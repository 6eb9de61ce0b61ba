import CoinCommit.Proofs.Bytes.Indexed

/-!
# Reads One After Another

A read that fails is not the end. Whoever reads may look at the error and go on
with another read, so what is known of a cursor has to hold after any number of
reads of any kind, whether or not they failed.

One thing is known, from which the rest follows: the cursor is at a place of the
string, as it was at the start. How a read ends is known at every place, and it
ends at a place that is not before the one where it began. So the bytes read and
the bytes ahead always make up the whole string, nothing is read twice, and each
read of a history can be looked at alone.

The same history moves an indexed reader to the same place, with the same values
and errors on the way, as long as the string has fewer bytes than there are words.

## Main definitions

* `ReadOp`: A read of any kind.
* `Cursor.after`, `IndexedReader.after`: Where a history of reads ends.
* `Cursor.Stands`: What is known of a cursor in a string.

## Theorems

* `ReadOp.Ends.exists_place`: A read ends at a place not before its own.
* `Cursor.exists_after_eq_placeIn`: And so does a history.
* `IndexedReader.after_placeIn`: An indexed reader ends at the same place.
* `Cursor.stands_after`: What is known at every point of every history.
-/

namespace CoinCommit

/-- A read of any kind: of bytes whose number is known, or of a number of variable width. -/
inductive ReadOp where
  | plain (read : PlainRead)
  | compactSize
deriving DecidableEq

/-- Where a step has ended, with a value or with an error. -/
def endOf {ε σ α : Type} : EStateM.Result ε σ α → σ
  | .ok _ s => s
  | .error _ s => s

namespace ReadOp

/-- What the read gives. -/
abbrev Value : ReadOp → Type
  | .plain read => read.Value
  | .compactSize => UInt64 × Nat

/-- The read of a cursor. -/
def run : (op : ReadOp) → Read op.Value
  | .plain read => read.run
  | .compactSize => CompactSize.read

/-- The read of an indexed reader. -/
def runIndexed : (op : ReadOp) → IndexedRead op.Value
  | .plain read => read.runIndexed
  | .compactSize => CompactSize.readIndexed

/-- The ways in which the read ends at place `k` of a string. -/
def Ends : (op : ReadOp) → Bytes → Nat → EStateM.Result ReadError Cursor op.Value → Prop
  | .plain read => read.Ends
  | .compactSize => CompactSize.Ends

variable {data : Bytes} {k : Nat}

theorem ends (op : ReadOp) (hk : k ≤ data.length) :
    op.Ends data k (op.run (Cursor.placeIn data k)) := by
  cases op with
  | plain read => exact read.ends hk
  | compactSize => exact CompactSize.ends hk

theorem agree (op : ReadOp) (hsize : data.length < USize.size) (hk : k ≤ data.length) :
    IndexedReader.Agree data (op.run (Cursor.placeIn data k))
      (op.runIndexed (IndexedReader.placeIn data k)) := by
  cases op with
  | plain read => exact read.agree hsize hk
  | compactSize => exact CompactSize.agree hsize hk

/-- However a read ends, it ends at a place of the string that is not before its own. -/
theorem Ends.exists_place {op : ReadOp} {result : EStateM.Result ReadError Cursor op.Value}
    (h : op.Ends data k result) (hk : k ≤ data.length) :
    ∃ k', k ≤ k' ∧ k' ≤ data.length ∧ endOf result = Cursor.placeIn data k' := by
  cases op with
  -- A plain read ends behind its bytes, or where it began.
  | plain read =>
      cases h with
      | taken v hfits _ => exact ⟨_, Nat.le_add_right k _, hfits, rfl⟩
      | short _ => exact ⟨k, Nat.le_refl k, hk, rfl⟩
  -- A number may fail behind its tag or behind its payload, but in the string.
  | compactSize =>
      cases h with
      | noTag _ => exact ⟨k, Nat.le_refl k, hk, rfl⟩
      | tagAlone tag htag _ n _ =>
          exact ⟨k + 1, by omega, (List.getElem?_eq_some_iff.mp htag).1, rfl⟩
      | cutShort tag htag p _ _ =>
          exact ⟨k + 1, by omega, (List.getElem?_eq_some_iff.mp htag).1, rfl⟩
      | notMinimal tag _ p _ hfits _ => exact ⟨_, by omega, hfits, rfl⟩
      | minimal tag _ p _ hfits n _ _ => exact ⟨_, by omega, hfits, rfl⟩

end ReadOp

/-- Where a cursor is after a history of reads. -/
def Cursor.after (c : Cursor) (history : List ReadOp) : Cursor :=
  history.foldl (fun c op => endOf (op.run c)) c

/-- Where an indexed reader is after a history of reads. -/
def IndexedReader.after (r : IndexedReader) (history : List ReadOp) : IndexedReader :=
  history.foldl (fun r op => endOf (op.runIndexed r)) r

/-- What is known of a cursor in a string: the bytes before it and ahead of it make up the string,
    no reads take it back, and every read ends as the bytes at its place say. -/
structure Cursor.Stands (data : Bytes) (c : Cursor) : Prop where
  offset_add_remaining : c.offset + c.remaining = data.length
  offset_le_after : ∀ history, c.offset ≤ (c.after history).offset
  plain : ∀ read : PlainRead, read.Ends data c.offset (read.run c)
  compactSize : CompactSize.Ends data c.offset (CompactSize.read c)

variable {data : Bytes} {k : Nat}

/-- Reads move a cursor from a place of the string to one that is not before it. -/
theorem Cursor.exists_after_eq_placeIn (data : Bytes) (history : List ReadOp)
    (hk : k ≤ data.length) :
    ∃ k', k ≤ k' ∧ k' ≤ data.length ∧ (placeIn data k).after history = placeIn data k' := by
  -- The reads of a history go on from wherever the read before them has ended.
  induction history generalizing k with
  | nil => exact ⟨k, Nat.le_refl k, hk, rfl⟩
  | cons op history ih =>
      rcases (op.ends hk).exists_place hk with ⟨k₁, hle, hk₁, hend⟩
      rcases ih hk₁ with ⟨k₂, hle', hk₂, hafter⟩
      refine ⟨k₂, Nat.le_trans hle hle', hk₂, ?_⟩
      rw [after, List.foldl_cons, hend]
      exact hafter

/-- The same reads move an indexed reader to the place to which they move a cursor. -/
theorem IndexedReader.after_placeIn (hsize : data.length < USize.size) (history : List ReadOp)
    (hk : k ≤ data.length) :
    (placeIn data k).after history =
      placeIn data ((Cursor.placeIn data k).after history).offset := by
  induction history generalizing k with
  | nil => rfl
  | cons op history ih =>
      -- After one read both are at the same place, be it a success or a failure.
      have hagree := op.agree hsize hk
      rw [after, Cursor.after, List.foldl_cons, List.foldl_cons]
      generalize op.run (Cursor.placeIn data k) = result at hagree
      generalize op.runIndexed (placeIn data k) = indexed at hagree
      cases hagree with
      | ok a k₁ hk₁ => exact ih hk₁
      | error e k₁ hk₁ => exact ih hk₁

theorem Cursor.stands_placeIn (hk : k ≤ data.length) : (placeIn data k).Stands data where
  offset_add_remaining := by
    rw [remaining, placeIn, List.length_drop]
    exact Nat.add_sub_of_le hk
  offset_le_after history := by
    rcases exists_after_eq_placeIn data history hk with ⟨k', hle, _, hafter⟩
    rw [hafter]
    exact hle
  plain read := read.ends hk
  compactSize := CompactSize.ends hk

/-- At every point of every history of reads, failed ones included, the cursor stands in its string.
    An indexed reader over a string that has fewer bytes than there are words is at the same place
    then, and whatever is read next ends for it as it does for the cursor: it never goes beyond the
    words or the string. -/
theorem Cursor.stands_after (data : Bytes) (history : List ReadOp) :
    ((start data).after history).Stands data ∧
      (data.length < USize.size →
        (IndexedReader.placeIn data 0).after history =
          IndexedReader.placeIn data ((start data).after history).offset ∧
        ∀ op : ReadOp, IndexedReader.Agree data (op.run ((start data).after history))
          (op.runIndexed ((IndexedReader.placeIn data 0).after history))) := by
  have hstart : start data = placeIn data 0 := rfl
  -- Wherever the history leads, it is a place of the string, of which all is known.
  rcases exists_after_eq_placeIn data history (Nat.zero_le _) with ⟨k, _, hk, hafter⟩
  rw [hstart, hafter]
  refine ⟨stands_placeIn hk, fun hsize => ?_⟩
  rw [IndexedReader.after_placeIn hsize history (Nat.zero_le _), hafter]
  exact ⟨rfl, fun op => op.agree hsize hk⟩

/-- The largest word. -/
def largestWord : USize := USize.ofNat (USize.size - 1)

/-- Behind the first of three bytes, as many as the largest word says cannot be had, and neither
    reader moves. -/
theorem Cursor.stands_after_too_many :
    ([7, 8, 9] : Bytes).length < USize.size ∧
      (PlainRead.bytes largestWord).run (placeIn [7, 8, 9] 1) =
        .error (.endOfInput .bytes) (placeIn [7, 8, 9] 1) ∧
      (PlainRead.bytes largestWord).runIndexed (IndexedReader.placeIn [7, 8, 9] 1) =
        .error (some (.endOfInput .bytes)) (IndexedReader.placeIn [7, 8, 9] 1) := by
  have hwords := USize.le_size
  have hsize : ([7, 8, 9] : Bytes).length < USize.size := Nat.lt_of_lt_of_le (by decide) hwords
  -- The largest word and the first index make up no word.
  have hlargest : largestWord.toNat = USize.size - 1 := USize.toNat_ofNat_of_lt' (by omega)
  have hone : (start [7, 8, 9]).after [.plain .u8] = placeIn [7, 8, 9] 1 := rfl
  rcases stands_after [7, 8, 9] [.plain .u8] with ⟨hstands, hindexed⟩
  rcases hindexed hsize with ⟨hplace, hagree⟩
  rw [hone] at hstands hplace hagree
  -- The history is the read of the first byte.
  rw [hplace] at hagree
  have hread : (PlainRead.bytes largestWord).run (placeIn [7, 8, 9] 1) =
      .error (.endOfInput .bytes) (placeIn [7, 8, 9] 1) := by
    have hends := hstands.plain (.bytes largestWord)
    generalize (PlainRead.bytes largestWord).run _ = result at hends
    cases hends with
    | taken v hfits _ =>
        -- So many bytes are not behind the first.
        change 1 + largestWord.toNat ≤ 3 at hfits
        omega
    | short _ => rfl
  refine ⟨hsize, hread, ?_⟩
  have hsame : IndexedReader.Agree _ ((PlainRead.bytes largestWord).run (placeIn [7, 8, 9] 1))
    ((PlainRead.bytes largestWord).runIndexed (IndexedReader.placeIn [7, 8, 9] 1)) :=
      hagree (.plain (.bytes largestWord))
  rw [hread] at hsame
  generalize (PlainRead.bytes largestWord).runIndexed _ = result at hsame ⊢
  cases hsame with
  | error e k hk => rfl

end CoinCommit
