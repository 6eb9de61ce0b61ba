import CoinCommit.Bytes.CompactSize
import Mathlib.Data.List.Basic

/-!
# Readers and Forms

Every reader of this library takes a value from the front of a cursor, and each
value has one form in which it is read. `Reads step form valid` says all of it
at once: the step succeeds on exactly those cursors that have the form of a
valid value in front, gives that value, and leaves what follows.

Stated as an equivalence, it is a round trip in both directions, and it
composes. A reader that is put together from others reads the forms of its
parts one after another, so the law of a record follows from the laws of its
fields, without a look at any cursor.

## Main definitions

* `Reads`: A step reads exactly the valid values, each from its form.

## Theorems

* `length_le_length_flatMap`: How long forms in a row are at least.
* `Reads.append_inj`: Different values have different forms, whatever follows.
* `Reads.bind`, `Reads.map`: One reader after another, and what is made of it.
* `Reads.mapM`: A reader for each entry of a list.
* `Cursor.reads_u8`, `reads_u64`, `reads_i64`, `reads_bytes`: The plain reads.
* `CompactSize.reads_read`: Numbers of variable width.
-/

namespace CoinCommit

/-- Whether a step reads exactly the valid values, each from its own form, and leaves what follows
    the form. -/
def Reads {ε α : Type} (step : EStateM ε Cursor α) (form : α → Bytes) (valid : α → Prop) : Prop :=
  ∀ c a c', step c = .ok a c' ↔
    valid a ∧ c.rest = form a ++ c'.rest ∧ c'.offset = c.offset + (form a).length

/-- Forms in a row have at least one byte for each value if each of them has. -/
theorem length_le_length_flatMap {α : Type} {form : α → Bytes} (h : ∀ a, 1 ≤ (form a).length)
    (values : List α) : values.length ≤ (values.flatMap form).length := by
  induction values with
  | nil => exact Nat.le_refl 0
  | cons a rest ih =>
      have hpos := h a
      rw [List.flatMap_cons, List.length_append, List.length_cons]
      omega

namespace Reads

variable {ε α β : Type}

/-- A form in front of other bytes is read as its value. -/
theorem ok_of_append {step : EStateM ε Cursor α} {form : α → Bytes} {valid : α → Prop}
    (h : Reads step form valid) {a : α} (ha : valid a) (k : Nat) (s : Bytes) :
    step ⟨k, form a ++ s⟩ = .ok a ⟨k + (form a).length, s⟩ :=
  (h _ a _).mpr ⟨ha, rfl, rfl⟩

/-- A form can be told from what follows it, so two values that are read have the same bytes in
    front only if they are the same. -/
theorem append_inj {step : EStateM ε Cursor α} {form : α → Bytes} {valid : α → Prop}
    (h : Reads step form valid) {a b : α} (ha : valid a) (hb : valid b) {s s' : Bytes}
    -- The same string is read twice, and one read has one result.
    (heq : form a ++ s = form b ++ s') : a = b ∧ s = s' := by
  have hfirst := h.ok_of_append ha 0 s
  have hsecond := h.ok_of_append hb 0 s'
  rw [heq] at hfirst
  cases hfirst.symm.trans hsecond
  exact ⟨rfl, rfl⟩

theorem of_halves {step : EStateM ε Cursor α} {form : α → Bytes} {valid : α → Prop}
    (hread : ∀ k a s, valid a → step ⟨k, form a ++ s⟩ = .ok a ⟨k + (form a).length, s⟩)
    (hok : ∀ c a c', step c = .ok a c' →
      valid a ∧ c.rest = form a ++ c'.rest ∧ c'.offset = c.offset + (form a).length) :
    Reads step form valid := by
  intro c a c'
  constructor
  · exact hok c a c'
  · intro h
    -- The cursor that is read from is the form and what is left.
    rcases c with ⟨k, rest⟩
    rcases c' with ⟨k', rest'⟩
    rcases h with ⟨ha, hrest, hoff⟩
    simp only at hrest hoff
    subst hrest
    subst hoff
    exact hread k a rest' ha

theorem congr {step : EStateM ε Cursor α} {form form' : α → Bytes} {valid valid' : α → Prop}
    (h : Reads step form valid) (hform : ∀ a, valid a → form' a = form a)
    (hvalid : ∀ a, valid' a ↔ valid a) : Reads step form' valid' := by
  intro c a c'
  rw [h c a c', hvalid a]
  -- The forms agree on valid values, and only these are read.
  constructor
  · intro hread
    rw [hform a hread.1]
    exact hread
  · intro hread
    rw [← hform a hread.1]
    exact hread

theorem adaptExcept {ε' : Type} (f : ε → ε') {step : EStateM ε Cursor α} {form : α → Bytes}
    {valid : α → Prop} (h : Reads step form valid) :
    Reads (EStateM.adaptExcept f step) form valid := by
  intro c a c'
  rw [← h c a c', EStateM.adaptExcept]
  rcases step c with ⟨b, c₁⟩ | ⟨e, c₁⟩ <;> simp only [reduceCtorEq, EStateM.Result.ok.injEq]

theorem pure (a : α) : Reads (Pure.pure a : EStateM ε Cursor α) (fun _ => []) (fun b => b = a) := by
  apply of_halves
  · intro k b s hb
    rw [hb]
    rfl
  · intro c b c' h
    cases h
    exact ⟨rfl, rfl, rfl⟩

theorem throw (e : ε) (form : α → Bytes) :
    Reads (MonadExcept.throw e : EStateM ε Cursor α) form (fun _ => False) := by
  intro c b c'
  constructor
  · intro h
    cases h
  · intro h
    exact h.1.elim

/-- One reader after another: the form is that of the first value and then that of the second. -/
theorem bind {step : EStateM ε Cursor α} {next : α → EStateM ε Cursor β} {form : α → Bytes}
    {valid : α → Prop} {form' : α → β → Bytes} {valid' : α → β → Prop} {whole : β → Bytes}
    {validWhole : β → Prop} (hstep : Reads step form valid)
    (hnext : ∀ a, valid a → Reads (next a) (form' a) (valid' a))
    (hform : ∀ a b, valid a → valid' a b → whole b = form a ++ form' a b)
    (hvalid : ∀ b, validWhole b ↔ ∃ a, valid a ∧ valid' a b) :
    Reads (step >>= next) whole validWhole := by
  intro c b c'
  constructor
  · intro h
    simp only [Bind.bind, EStateM.bind] at h
    split at h
    · -- What the first reader leaves is what the second one is given.
      rename_i a c₁ hfirst
      rcases (hstep c a c₁).mp hfirst with ⟨ha, hrest, hoff⟩
      rcases (hnext a ha c₁ b c').mp h with ⟨hb, hrest', hoff'⟩
      rw [hform a b ha hb]
      refine ⟨(hvalid b).mpr ⟨a, ha, hb⟩, ?_, ?_⟩
      · rw [hrest, hrest', List.append_assoc]
      · rw [hoff', hoff, List.length_append, Nat.add_assoc]
    · cases h
  · intro h
    -- A form of the whole is the form of a first value and that of a second.
    rcases h with ⟨hb, hrest, hoff⟩
    rcases (hvalid b).mp hb with ⟨a, ha, hb'⟩
    rw [hform a b ha hb'] at hrest hoff
    -- Between the two readers stands the cursor that has the second form ahead.
    have hfirst := (hstep c a ⟨c.offset + (form a).length, form' a b ++ c'.rest⟩).mpr
      ⟨ha, by rw [hrest, List.append_assoc], rfl⟩
    have hsecond := (hnext a ha ⟨c.offset + (form a).length, form' a b ++ c'.rest⟩ b c').mpr
      ⟨hb', rfl, by rw [hoff, List.length_append, Nat.add_assoc]⟩
    simp only [Bind.bind, EStateM.bind, hfirst, hsecond]

/-- What is made of a value has the form of the value. -/
theorem map {step : EStateM ε Cursor α} {f : α → β} {form : α → Bytes} {valid : α → Prop}
    {whole : β → Bytes} {validWhole : β → Prop} (hstep : Reads step form valid)
    (hform : ∀ a, valid a → whole (f a) = form a)
    (hvalid : ∀ b, validWhole b ↔ ∃ a, valid a ∧ b = f a) :
    Reads (step >>= fun a => Pure.pure (f a)) whole validWhole := by
  refine bind hstep (fun a _ => pure (f a)) ?_ hvalid
  intro a b ha hb
  rw [hb, hform a ha, List.append_nil]

/-- A reader for each entry of a list reads the forms one after another. -/
theorem mapM {ι : Type} {step : ι → EStateM ε Cursor α} {form : α → Bytes} {valid : α → Prop}
    (h : ∀ i, Reads (step i) form valid) (entries : List ι) :
    Reads (entries.mapM step) (fun values => values.flatMap form)
      (fun values => values.length = entries.length ∧ ∀ a ∈ values, valid a) := by
  induction entries with
  | nil =>
      rw [List.mapM_nil]
      refine (pure []).congr ?_ ?_
      · -- Only the empty list is as long as no entries.
        intro values hvalues
        rw [hvalues, List.flatMap_nil]
      · intro values
        constructor
        · intro hv
          exact List.eq_nil_of_length_eq_zero hv.1
        · intro hvalues
          rw [hvalues]
          exact ⟨rfl, fun a ha => absurd ha List.not_mem_nil⟩
  | cons i entries ih =>
      -- The rest is read with the first value known, so its law is about lists that begin with it.
      have hrest : ∀ a, Reads (entries.mapM step >>= fun values => Pure.pure (a :: values))
          (fun values => values.tail.flatMap form)
          (fun values => ∃ rest, (rest.length = entries.length ∧ ∀ b ∈ rest, valid b) ∧
            values = a :: rest) := by
        intro a
        refine ih.map ?_ ?_
        · intro rest _
          rw [List.tail_cons]
        · intro values
          exact Iff.rfl
      rw [List.mapM_cons]
      refine bind (h i) (fun a _ => hrest a) ?_ ?_
      · intro a values _ hvalues
        -- A list that begins with the first value has its form in front.
        rcases hvalues with ⟨rest, _, rfl⟩
        rw [List.flatMap_cons, List.tail_cons]
      · intro values
        constructor
        · intro hv
          rcases hv with ⟨hlen, hall⟩
          match values, hlen, hall with
          | a :: rest, hlen, hall =>
              rw [List.length_cons, List.length_cons, Nat.add_right_cancel_iff] at hlen
              rw [List.forall_mem_cons] at hall
              exact ⟨a, hall.1, rest, ⟨hlen, hall.2⟩, rfl⟩
        · intro hv
          rcases hv with ⟨a, ha, rest, ⟨hlen, hall⟩, rfl⟩
          rw [List.length_cons, List.length_cons, hlen, List.forall_mem_cons]
          exact ⟨rfl, ha, hall⟩

end Reads

namespace Cursor

theorem reads_takeBytes (item : Item) (n : Nat) :
    Reads (takeBytes item n) id (fun bs => bs.length = n) := by
  apply Reads.of_halves
  · intro k bs s hlen
    rw [← hlen]
    exact takeBytes_append item k bs s
  · -- Whatever is taken has so many bytes, and these were in front.
    intro c bs c' h
    rcases takeBytes_eq_ok h with ⟨hlen, hrest, hoff⟩
    exact ⟨hlen, hrest, by rw [hoff, id, hlen]⟩

theorem reads_bytes (n : Nat) : Reads (bytes n) id (fun bs => bs.length = n) :=
  reads_takeBytes .bytes n

theorem reads_u8 : Reads u8 (fun b => [b]) (fun _ => True) := by
  apply Reads.of_halves
  · intro k b s _
    exact u8_cons k b s
  · intro c b c' h
    rcases c with ⟨k, _ | ⟨first, rest⟩⟩
    · cases h
    · rw [u8_cons] at h
      cases h
      exact ⟨trivial, rfl, rfl⟩

theorem reads_u64 : Reads u64 LittleEndian.ofUInt64 (fun _ => True) := by
  refine (reads_takeBytes .u64 8).map ?_ ?_
  · -- Eight bytes are the form of the number they stand for.
    intro bs hlen
    have h := LittleEndian.encode_toUInt64 (Nat.le_of_eq hlen)
    rw [hlen] at h
    exact h
  · intro n
    refine ⟨fun _ => ?_, fun _ => trivial⟩
    exact ⟨LittleEndian.ofUInt64 n, LittleEndian.length_encode 8 _,
      (LittleEndian.toUInt64_ofUInt64 n).symm⟩

theorem reads_i64 : Reads i64 LittleEndian.ofInt64 (fun _ => True) := by
  -- A signed number has the bytes of its two's complement.
  refine (reads_takeBytes .i64 8).map ?_ ?_
  · intro bs hlen
    have h := LittleEndian.encode_toUInt64 (Nat.le_of_eq hlen)
    rw [hlen] at h
    exact h
  · intro n
    refine ⟨fun _ => ?_, fun _ => trivial⟩
    exact ⟨LittleEndian.ofInt64 n, LittleEndian.length_encode 8 _,
      (LittleEndian.toInt64_ofInt64 n).symm⟩

end Cursor

/-- Every number is read from its shortest form only. -/
theorem CompactSize.reads_read :
    Reads read (fun p => encode p.1) (fun p => p.2 = (encode p.1).length) := by
  apply Reads.of_halves
  · -- The size that is given is the length of the shortest form.
    intro k p s hsize
    rcases p with ⟨n, size⟩
    simp only at hsize
    subst hsize
    exact read_encode_append n k s
  · intro c p c' h
    rcases eq_encode_of_read h with ⟨hrest, hsize, hoff⟩
    exact ⟨hsize, hrest, by rw [hoff, hsize]⟩

end CoinCommit
