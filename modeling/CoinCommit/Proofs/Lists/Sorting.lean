import Mathlib.Data.List.Sort

/-!
# Sorting with Ties

Items are sorted by a key that several of them may have. Such a sort is stable:
items with one key keep their order. Together with the order of the keys this
leaves no choice, so a sorted list can be told without saying how it is sorted.

## Theorems

* `filter_key_mergeSort`: The items with one key are left as they were.
* `eq_of_pairwise_of_filter_key`: A list in the order of its keys is told by its
  items with each key.
-/

namespace CoinCommit

variable {α κ : Type} [DecidableEq κ]

/-- Sorting by a key keeps the order of the items with one key. -/
theorem filter_key_mergeSort (key : α → κ) (le : κ → κ → Bool)
    (htrans : ∀ a b c, le a b = true → le b c = true → le a c = true)
    (htotal : ∀ a b, (le a b || le b a) = true) (as : List α) (k : κ) :
    (as.mergeSort fun a b => le (key a) (key b)).filter (fun a => key a = k) =
      as.filter fun a => key a = k := by
  have hrefl : ∀ k, le k k = true := fun k => by simpa only [Bool.or_self] using htotal k k
  have hkey : ∀ a ∈ as.filter (fun a => key a = k), key a = k := fun a ha => by
    simpa only [decide_eq_true_eq] using (List.mem_filter.mp ha).2
  -- The items with the key are sorted as they stand, so the sort moves none past another.
  have hsorted : (as.filter fun a => key a = k).Pairwise fun a b => le (key a) (key b) = true :=
    List.pairwise_of_forall_mem_list fun a ha b hb => by
      rw [hkey a ha, hkey b hb]
      exact hrefl k
  have hsublist := List.sublist_mergeSort (fun a b c => htrans (key a) (key b) (key c))
    (fun a b => htotal (key a) (key b)) hsorted List.filter_sublist
  -- Both lists have as many items with the key, and one is part of the other.
  have hfiltered := hsublist.filter fun a => key a = k
  rw [List.filter_filter, List.filter_congr fun a _ => Bool.and_self _] at hfiltered
  exact (hfiltered.eq_of_length ((List.mergeSort_perm as _).filter _).length_eq.symm).symm

theorem mem_iff_of_filter_key {key : α → κ} {as bs : List α}
    (h : ∀ k, (as.filter fun a => key a = k) = bs.filter fun a => key a = k) (a : α) :
    -- An item has its own key.
    a ∈ as ↔ a ∈ bs := by
  have ha := congrArg (a ∈ ·) (h (key a))
  simpa only [List.mem_filter, decide_true, and_true, eq_iff_iff] using ha

/-- A list in the order of its keys is told by its items with each key. -/
theorem eq_of_pairwise_of_filter_key {key : α → κ} {le : κ → κ → Bool} {as bs : List α}
    (hantisymm : ∀ a b, le a b = true → le b a = true → a = b)
    (has : as.Pairwise fun a b => le (key a) (key b) = true)
    (hbs : bs.Pairwise fun a b => le (key a) (key b) = true)
    (h : ∀ k, (as.filter fun a => key a = k) = bs.filter fun a => key a = k) : as = bs := by
  induction as generalizing bs with
  | nil =>
      cases bs with
      | nil => rfl
      | cons b bs => cases (mem_iff_of_filter_key h b).mpr List.mem_cons_self
  | cons a as ih =>
      cases bs with
      | nil => cases (mem_iff_of_filter_key h a).mp List.mem_cons_self
      | cons b bs =>
          have hafirst := List.pairwise_cons.mp has
          have hbfirst := List.pairwise_cons.mp hbs
          -- Each of the two first items stands in the other list, so their keys are the same.
          have hsame : key b = key a := by
            have ha := (mem_iff_of_filter_key h a).mp List.mem_cons_self
            have hb := (mem_iff_of_filter_key h b).mpr List.mem_cons_self
            rcases List.mem_cons.mp ha with rfl | ha
            · rfl
            rcases List.mem_cons.mp hb with rfl | hb
            · rfl
            exact hantisymm _ _ (hbfirst.1 a ha) (hafirst.1 b hb)
          -- They are the first items with their key, and so the same.
          have hkey := h (key a)
          simp only [List.filter_cons, hsame, decide_true, if_true] at hkey
          rcases List.cons.inj hkey with ⟨rfl, _⟩
          refine congrArg (a :: ·) (ih hafirst.2 hbfirst.2 fun k => ?_)
          have hk := h k
          rw [List.filter_cons, List.filter_cons] at hk
          split at hk
          · exact (List.cons.inj hk).2
          · exact hk

end CoinCommit
