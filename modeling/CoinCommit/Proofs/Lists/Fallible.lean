import Mathlib.Data.List.Forall2

/-!
# Lists Read Item by Item

A list is often gone through with a step that may fail: texts are read as
digits, outputs are looked up again. Nothing is left of such a pass if a step
fails, and the first one that does names the fault; what comes after it is not
looked at. If no step fails, the pass is the plain one over what the steps have
given.

## Theorems

* `mapM_eq_ok_iff`: When every item is read, and as what.
* `mapM_zipIdx_eq_ok_iff`: The same where an item's number is named in faults.
* `filterMap_eq_of_forall₂`: The same list without the faults.
* `exists_first_error`: No item fails, or there is a first one that does.
* `filterM_of_ok`, `filterM_of_error`: What a fallible test leaves of a list.
-/

namespace CoinCommit

variable {ε α β : Type}

theorem bind_eq_ok_iff {x : Except ε α} {f : α → Except ε β} {b : β} :
    x >>= f = .ok b ↔ ∃ a, x = .ok a ∧ f a = .ok b := by
  rcases x with e | a
  · constructor
    · rintro ⟨⟩
    · rintro ⟨_, ⟨⟩, _⟩
  · constructor
    · exact fun h => ⟨a, rfl, h⟩
    · rintro ⟨_, ⟨⟩, h⟩
      exact h

/-- A list is read if every item of it is. -/
theorem mapM_eq_ok_iff {f : α → Except ε β} {as : List α} {bs : List β} :
    as.mapM f = .ok bs ↔ List.Forall₂ (fun a b => f a = .ok b) as bs := by
  induction as generalizing bs with
  | nil =>
      rw [List.mapM_nil, List.forall₂_nil_left_iff]
      exact ⟨fun h => (Except.ok.inj h).symm, fun h => congrArg Except.ok h.symm⟩
  | cons a as ih =>
      rw [List.mapM_cons, bind_eq_ok_iff, List.forall₂_cons_left_iff]
      constructor
      · -- The first item is read, and then the rest.
        rintro ⟨b, hb, hrest⟩
        rcases bind_eq_ok_iff.mp hrest with ⟨bs', hbs, hcons⟩
        exact ⟨b, bs', hb, ih.mp hbs, (Except.ok.inj hcons).symm⟩
      · rintro ⟨b, bs', hb, hbs, rfl⟩
        exact ⟨b, hb, bind_eq_ok_iff.mpr ⟨bs', ih.mpr hbs, rfl⟩⟩

/-- Where the number of an item is named in faults only, it does not matter to what is read. -/
theorem mapM_zipIdx_eq_ok_iff {f : α × Nat → Except ε β} {reads : α → β → Prop}
    (hf : ∀ a i b, f (a, i) = .ok b ↔ reads a b) {as : List α} {bs : List β} :
    as.zipIdx.mapM f = .ok bs ↔ List.Forall₂ reads as bs := by
  -- The number is not looked at.
  have hitem : (fun (x : α × Nat) b => f x = .ok b) = fun x b => reads x.1 b := by
    funext x b
    exact propext (hf x.1 x.2 b)
  rw [mapM_eq_ok_iff, hitem, ← List.forall₂_map_left_iff, List.zipIdx_map_fst]

/-- What is read of each item is what there is to be read of all of them. -/
theorem filterMap_eq_of_forall₂ {f : α → Option β} {as : List α} {bs : List β}
    (h : List.Forall₂ (fun a b => f a = some b) as bs) : as.filterMap f = bs := by
  induction h with
  | nil => rfl
  | cons hb _ ih => rw [List.filterMap_cons, hb, ih]

/-- Every item passes, or there is a first one that does not. -/
theorem exists_first_error (f : α → Except ε β) (as : List α) :
    (∀ a ∈ as, ∃ b, f a = .ok b) ∨
      ∃ before a after e, as = before ++ a :: after ∧ (∀ x ∈ before, ∃ b, f x = .ok b) ∧
        f a = .error e := by
  induction as with
  | nil => exact Or.inl fun _ h => nomatch h
  | cons a as ih =>
      rcases ha : f a with e | b
      · -- The first item fails.
        exact Or.inr ⟨[], a, as, e, rfl, fun _ h => (nomatch h), ha⟩
      -- It passes, so the first failure is that of the rest.
      rcases ih with hall | ⟨before, c, after, e, rfl, hbefore, hc⟩
      · exact Or.inl (List.forall_mem_cons.mpr ⟨⟨b, ha⟩, hall⟩)
      · exact Or.inr ⟨a :: before, c, after, e, rfl,
          List.forall_mem_cons.mpr ⟨⟨b, ha⟩, hbefore⟩, hc⟩

section

variable {p : α → Except ε Bool}

theorem filterAuxM_of_ok {q : α → Bool} {as : List α} (h : ∀ a ∈ as, p a = .ok (q a))
    (kept : List α) : List.filterAuxM p as kept = .ok ((as.filter q).reverse ++ kept) := by
  induction as generalizing kept with
  | nil => rfl
  | cons a as ih =>
      -- What is kept is gathered in reverse, in front of what was kept before.
      have hrest := fun kept => ih (fun b hb => h b (List.mem_cons_of_mem a hb)) kept
      rw [List.filterAuxM, h a List.mem_cons_self, List.filter_cons]
      change List.filterAuxM p as (bif q a then a :: kept else kept) = _
      rw [hrest]
      cases q a with
      | true => rw [if_pos rfl, List.reverse_cons, List.append_assoc]; rfl
      | false => rfl

theorem filterAuxM_of_error {before : List α} {a : α} {e : ε}
    (hbefore : ∀ b ∈ before, ∃ x, p b = .ok x) (ha : p a = .error e) (after kept : List α) :
    List.filterAuxM p (before ++ a :: after) kept = .error e := by
  induction before generalizing kept with
  | nil =>
      rw [List.nil_append, List.filterAuxM, ha]
      rfl
  | cons b before ih =>
      -- An item that passes only changes what is kept.
      rcases hbefore b List.mem_cons_self with ⟨x, hx⟩
      rw [List.cons_append, List.filterAuxM, hx]
      exact ih (fun c hc => hbefore c (List.mem_cons_of_mem b hc)) _

/-- A test that always answers keeps the items for which the answer is yes. -/
theorem filterM_of_ok {q : α → Bool} {as : List α} (h : ∀ a ∈ as, p a = .ok (q a)) :
    as.filterM p = .ok (as.filter q) := by
  rw [List.filterM, filterAuxM_of_ok h, List.append_nil]
  exact congrArg Except.ok (List.reverse_reverse _)

/-- A test fails on a list as it fails on the first item on which it does. -/
theorem filterM_of_error {before : List α} {a : α} {e : ε}
    (hbefore : ∀ b ∈ before, ∃ x, p b = .ok x) (ha : p a = .error e) (after : List α) :
    (before ++ a :: after).filterM p = .error e := by
  rw [List.filterM, filterAuxM_of_error hbefore ha]
  rfl

end

end CoinCommit
