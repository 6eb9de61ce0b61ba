/-!
# Lists in Ascending Order of Keys

Items that have keys are kept in ascending order of these, no key twice. An item
that is put in goes to its place in the order; if one with its key is there, it
takes the place of that one. The order of the keys is linear, so there is one such
list for given items, and an item is found by its key wherever it stands.

## Main definitions

* `Ascending`: The items are in strictly ascending order of their keys.
* `insertByKey`: The items with one more in its place.

## Theorems

* `Ascending.find?_eq_some_iff`: The items are found by their keys.
* `Ascending.nodup`: No item is there twice.
* `Ascending.eq_of_mem_iff`: Lists of the same items are equal.
* `find?_filter_key_ne`: What is found after a key was taken out.
* `mem_insertByKey`, `Ascending.insertByKey`: What is in the list after one more
  was put in, and in which order.
* `find?_insertByKey`: What is found then under each key.
* `insertByKey_eq_append`: The item with the last key is put at the end.
-/

namespace CoinCommit

section Order

variable {α κ : Type} [LT κ] {key : α → κ} {k : κ} {a b : α}
  {items items' : List α}

/-- The items are in ascending order of their keys, no key twice. -/
abbrev Ascending (key : α → κ) (items : List α) : Prop :=
  items.Pairwise fun a b => key a < key b

variable [Std.Irrefl (α := κ) (· < ·)]

theorem key_ne_of_lt (h : key a < key b) : key a ≠ key b := by
  intro he
  rw [he] at h
  exact Std.Irrefl.irrefl _ h

/-- The items are found by their keys, and nothing else is. -/
theorem Ascending.find?_eq_some_iff [DecidableEq κ] (h : Ascending key items) :
    items.find? (fun b => key b = k) = some a ↔ a ∈ items ∧ key a = k := by
  constructor
  · intro hfind
    refine ⟨List.mem_of_find?_eq_some hfind, ?_⟩
    exact of_decide_eq_true (List.find?_some (p := fun b => decide (key b = k)) hfind)
  · rintro ⟨hmem, rfl⟩
    -- Keys ascend strictly, so no item before this one has the same key.
    rcases List.append_of_mem hmem with ⟨before, after, hsplit⟩
    rw [List.find?_eq_some_iff_append]
    refine ⟨decide_eq_true rfl, before, after, hsplit, fun b hb => ?_⟩
    have hlt : key b < key a :=
      (List.pairwise_append.mp (hsplit ▸ h)).2.2 b hb _ List.mem_cons_self
    rw [decide_eq_false (key_ne_of_lt hlt), Bool.not_false]

theorem Ascending.nodup (h : Ascending key items) : items.Nodup :=
  h.imp fun hlt he => key_ne_of_lt hlt (congrArg key he)

/-- Lists with the same items are equal. -/
theorem Ascending.eq_of_mem_iff [Trans (α := κ) (· < ·) (· < ·) (· < ·)]
    (h : Ascending key items) (h' : Ascending key items')
    (hmem : ∀ a, a ∈ items ↔ a ∈ items') : items = items' := by
  -- No key occurs twice, so having the same members makes one a rearrangement of the other.
  have hperm : items.Perm items' :=
    (List.perm_ext_iff_of_nodup h.nodup h'.nodup).mpr hmem
  -- Two arrangements of the same items in the one strict order are the same list.
  refine hperm.eq_of_pairwise (fun a b _ _ hab hba => ?_) h h'
  have hself : key a < key a := Trans.trans hab hba
  exact absurd hself (Std.Irrefl.irrefl _)

end Order

/-- Under a key that was taken out lies nothing, and under every other key what lay there before. -/
theorem find?_filter_key_ne {α κ : Type} [DecidableEq κ] (key : α → κ) (k k' : κ) (items : List α) :
    (items.filter fun b => key b ≠ k).find? (fun b => key b = k') =
      if k' = k then none else items.find? fun b => key b = k' := by
  rw [List.find?_filter]
  by_cases h : k' = k
  · rw [if_pos h, List.find?_eq_none]
    rintro b - hb
    rw [decide_eq_true_iff, decide_eq_true_iff, decide_eq_true_iff] at hb
    exact hb.1 (hb.2.trans h)
  · rw [if_neg h]
    congr
    funext b
    simp only [decide_eq_true_iff, decide_eq_decide]
    exact and_iff_right_of_imp fun hb hk => h (hb.symm.trans hk)

section Insertion

variable {α κ : Type} [LT κ] [DecidableEq κ] [DecidableLT κ] {key : α → κ} {a b : α}
  {items : List α}

/-- The items with one more in its place, instead of one with the same key. -/
def insertByKey (key : α → κ) (a : α) : List α → List α
  | [] => [a]
  | b :: rest =>
      if key a < key b then a :: b :: rest
      else if key a = key b then a :: rest
      else b :: insertByKey key a rest

theorem mem_insertByKey (h : b ∈ insertByKey key a items) : b = a ∨ b ∈ items := by
  induction items with
  | nil => exact Or.inl (List.mem_singleton.mp h)
  | cons c rest ih =>
      unfold insertByKey at h
      split at h
      · exact List.mem_cons.mp h
      · split at h
        · exact (List.mem_cons.mp h).imp_right (List.mem_cons_of_mem c)
        · rcases List.mem_cons.mp h with rfl | h
          · exact Or.inr List.mem_cons_self
          · exact (ih h).imp_right (List.mem_cons_of_mem c)

/-- Under the key of the item that was put in lies this item, and under every other key what lay
    there before. -/
theorem find?_insertByKey (key : α → κ) (a : α) (k : κ) (items : List α) :
    (insertByKey key a items).find? (fun b => key b = k) =
      if k = key a then some a else items.find? fun b => key b = k := by
  induction items with
  | nil =>
      by_cases h : k = key a
      · simp only [insertByKey, List.find?_cons, h, decide_true, if_true]
      · have h' : ¬ key a = k := fun he => h he.symm
        simp only [insertByKey, List.find?_cons, h, h', decide_false, if_false, List.find?_nil]
  | cons c rest ih =>
      unfold insertByKey
      by_cases hlt : key a < key c
      · rw [if_pos hlt]
        by_cases h : k = key a
        · simp only [List.find?_cons, h, decide_true, if_true]
        · have h' : ¬ key a = k := fun he => h he.symm
          rw [if_neg h, List.find?_cons_of_neg (by simp only [h', decide_false,
            Bool.false_eq_true, not_false_eq_true])]
      · rw [if_neg hlt]
        by_cases hc : key a = key c
        · -- What is replaced had the key of the new item, so it is found under no other.
          rw [if_pos hc]
          by_cases h : k = key a
          · simp only [List.find?_cons, h, decide_true, if_true]
          · have h' : ¬ key a = k := fun he => h he.symm
            have h'' : ¬ key c = k := fun he => h' (hc.trans he)
            simp only [List.find?_cons, h, h', h'', decide_false, if_false]
        · rw [if_neg hc]
          by_cases hk : key c = k
          · have h : ¬ k = key a := fun he => hc (he.symm.trans hk.symm)
            simp only [List.find?_cons, hk, decide_true, h, if_false]
          · simp only [List.find?_cons, hk, decide_false, ih]

theorem Ascending.insertByKey [Trans (α := κ) (· < ·) (· < ·) (· < ·)]
    [Std.Trichotomous (α := κ) (· < ·)] (a : α) (h : Ascending key items) :
    Ascending key (insertByKey key a items) := by
  induction items with
  | nil => exact List.pairwise_singleton _ _
  | cons c rest ih =>
      have hrest := List.pairwise_cons.mp h
      unfold CoinCommit.insertByKey
      split
      · -- The key comes before all others.
        rename_i hlt
        refine List.pairwise_cons.mpr ⟨fun b hb => ?_, h⟩
        rcases List.mem_cons.mp hb with rfl | hb
        · exact hlt
        · exact Trans.trans hlt (hrest.1 b hb)
      · rename_i hnlt
        split
        · -- The key is there, and its item is replaced.
          rename_i heq
          refine List.pairwise_cons.mpr ⟨fun b hb => ?_, hrest.2⟩
          exact heq ▸ hrest.1 b hb
        · -- The key comes later, so the first item stays the first.
          rename_i hne
          refine List.pairwise_cons.mpr ⟨fun b hb => ?_, ih hrest.2⟩
          rcases mem_insertByKey hb with rfl | hb
          · apply Classical.byContradiction
            exact fun hnlt' => hne (Std.Trichotomous.trichotomous _ _ hnlt hnlt')
          · exact hrest.1 b hb

/-- An item whose key comes after all others is put at the end. -/
theorem insertByKey_eq_append [Trans (α := κ) (· < ·) (· < ·) (· < ·)]
    [Std.Irrefl (α := κ) (· < ·)] (h : ∀ b ∈ items, key b < key a) :
    insertByKey key a items = items ++ [a] := by
  induction items with
  | nil => rfl
  | cons c rest ih =>
      have hlt : key c < key a := h c List.mem_cons_self
      have hbefore : ¬ key a < key c := fun hgt => Std.Irrefl.irrefl _ (Trans.trans hlt hgt)
      have hsame : ¬ key a = key c := fun he => key_ne_of_lt hlt he.symm
      rw [insertByKey, if_neg hbefore, if_neg hsame,
        ih fun b hb => h b (List.mem_cons_of_mem c hb), List.cons_append]

end Insertion

end CoinCommit
