import Mathlib.Logic.Function.Basic
import CoinCommit.Proofs.Bytes.Reads

/-!
# Forms That Say Where They End

A form is delimited if it can be told from whatever follows it. Fields written
one after another can then be taken apart again without a separator, and no byte
can pass from one field into the next: that would be another way of cutting the
same string, and there is only one.

There are two reasons for a form to be delimited. It has the same width for all
values, or it has its own length in front. The second needs lengths that fit
into a word, as a longer one is written like a shorter one. Forms in a row are
delimited if each of them is, so the law of a record is put together from its
fields.

`Reads` says more, that there is a reader for the form. What is hashed is never
read back, so it has no reader, but it has to be delimited all the same.

## Main definitions

* `Delimited`: Values and what follows them are told from the bytes.

## Theorems

* `Delimited.of_reads`, `Delimited.of_width`: Forms with a reader, and forms of
  fixed width.
* `CompactSize.delimited_sized`: Strings with their length in front.
* `Delimited.append`, `Delimited.comap`: Forms in a row, and records by their
  fields.
* `Delimited.injective`: A form belongs to one value.
-/

namespace CoinCommit

/-- Where the forms of two valid values are followed by anything and the bytes are the same, the
    values are the same and so is what follows. -/
def Delimited {α : Type} (form : α → Bytes) (valid : α → Prop) : Prop :=
  ∀ a b, valid a → valid b → ∀ s s', form a ++ s = form b ++ s' → a = b ∧ s = s'

namespace Delimited

variable {α β : Type} {form : α → Bytes} {valid : α → Prop}

/-- What is read back in front of anything has been told from it. -/
theorem of_reads {ε : Type} {step : EStateM ε Cursor α} (h : Reads step form valid) :
    Delimited form valid := by
  intro a b ha hb s s' heq
  exact h.append_inj ha hb heq

/-- Forms of one width end where the width says. -/
theorem of_width (width : Nat) (hwidth : ∀ a, (form a).length = width)
    (hinj : ∀ a b, form a = form b → a = b) : Delimited form fun _ => True := by
  intro a b _ _ s s' h
  -- The forms are equally long, so what follows them starts at the same place.
  have hlen : (form a).length = (form b).length := by rw [hwidth, hwidth]
  have hparts := List.append_inj h hlen
  exact ⟨hinj a b hparts.1, hparts.2⟩

/-- Two forms in a row: the first is taken off the front, and then the second. -/
theorem append {form' : β → Bytes} {valid' : β → Prop} (h : Delimited form valid)
    (h' : Delimited form' valid') :
    Delimited (fun p : α × β => form p.1 ++ form' p.2) fun p => valid p.1 ∧ valid' p.2 := by
  rintro ⟨a, b⟩ ⟨a', b'⟩ ⟨ha, hb⟩ ⟨ha', hb'⟩ s s' heq
  simp only [List.append_assoc] at heq
  rcases h a a' ha ha' _ _ heq with ⟨rfl, hrest⟩
  rcases h' b b' hb hb' _ _ hrest with ⟨rfl, hs⟩
  exact ⟨rfl, hs⟩

/-- A record that is known from its fields is written field by field. -/
theorem comap (h : Delimited form valid) {f : β → α} (hf : Function.Injective f) :
    Delimited (fun b => form (f b)) fun b => valid (f b) := by
  intro a b ha hb s s' heq
  -- Records with the same fields are the same.
  rcases h (f a) (f b) ha hb s s' heq with ⟨hfields, hs⟩
  exact ⟨hf hfields, hs⟩

/-- With nothing after them, forms are the same for the same value only. -/
theorem injective (h : Delimited form valid) {a b : α} (ha : valid a) (hb : valid b)
    (heq : form a = form b) : a = b :=
  (h a b ha hb [] [] (by rw [heq])).1

end Delimited

namespace CompactSize

theorem ofLength_append_inj {m n : Nat} {s s' : Bytes} (hm : m < UInt64.size)
    (hn : n < UInt64.size) (h : ofLength m ++ s = ofLength n ++ s') : m = n ∧ s = s' := by
  -- A length is read back from its own form.
  have hsame := reads_read.append_inj (a := (UInt64.ofNat m, (ofLength m).length))
    (b := (UInt64.ofNat n, (ofLength n).length)) rfl rfl h
  have hword : UInt64.ofNat m = UInt64.ofNat n := (Prod.mk.inj hsame.1).1
  refine ⟨?_, hsame.2⟩
  rw [← UInt64.toNat_ofNat_of_lt' hm, hword, UInt64.toNat_ofNat_of_lt' hn]

theorem delimited_sized : Delimited sized fun bs => bs.length < UInt64.size := by
  intro a b ha hb s s' h
  simp only [sized, List.append_assoc] at h
  -- First the lengths are told apart, and then it is known where the strings end.
  rcases ofLength_append_inj ha hb h with ⟨hlen, hrest⟩
  exact List.append_inj hrest hlen

end CompactSize

theorem Bytes32.delimited_bytes : Delimited Bytes32.bytes fun _ => True :=
  Delimited.of_width 32 Bytes32.length_eq fun _ _ => ext_bytes

namespace LittleEndian

theorem delimited_ofInt64 : Delimited ofInt64 fun _ => True := Delimited.of_reads Cursor.reads_i64

theorem delimited_ofUInt32 : Delimited ofUInt32 fun _ => True := by
  refine Delimited.of_width 4 (fun n => length_encode 4 n.toNat) ?_
  intro m n h
  -- Four bytes hold every word of this width.
  have hm : decode (ofUInt32 m) = m.toNat := decode_encode_of_lt m.toNat_lt
  have hn : decode (ofUInt32 n) = n.toNat := decode_encode_of_lt n.toNat_lt
  apply UInt32.toNat_inj.mp
  rw [← hm, h, hn]

end LittleEndian

end CoinCommit
