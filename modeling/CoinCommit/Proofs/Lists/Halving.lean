import Mathlib.Data.List.Basic

/-!
# Searching by Halves

A test cuts a list in two if all items that pass it stand in front of all that
do not. The place of the cut is found by trying an item in the middle of what is
left to be searched. If it passes, the cut is behind it, and if not, it is not
behind it; either way half of the items need not be looked at. `Encloses` is the
invariant: in front of the part that is left everything passes, and behind it
nothing does.

The part that is left may be cut at its own front end, so it must never become
empty, and its last item is tried in the end. Every access is checked, and a
search that goes beyond the end of the array has no result.

## Main definitions

* `narrow`, `partitionPoint`: The search in a part of an array, and in all of it.
* `CutAt`: A list that a test cuts at a place.
* `Encloses`: The cut is in a part of the array.

## Theorems

* `Encloses.half`: Trying an item halves the part that is left.
* `Encloses.exists_narrow`, `exists_partitionPoint`: The search ends at the cut.
-/

namespace CoinCommit

variable {α : Type}

/-- The place where the items that pass a test end, searched for among `size` items from `base`
    on. -/
def narrow (passes : α → Bool) (items : Array α) (base size : Nat) : Option Nat :=
  if _ : 1 < size then do
    let half := size / 2
    let middle ← items[base + half]?
    narrow passes items (if passes middle then base + half else base) (size - half)
  else do
    let last ← items[base]?
    return if passes last then base + 1 else base
termination_by size

/-- The place where the items that pass a test end, found by halves; absent if the array is accessed
    beyond its end. -/
def partitionPoint (passes : α → Bool) (items : Array α) : Option Nat :=
  if items.isEmpty then some 0 else narrow passes items 0 items.size

/-- The items in front of a place pass a test, and those from there on do not. -/
structure CutAt (passes : α → Bool) (items : Array α) (place : Nat) : Prop where
  le_size : place ≤ items.size
  before : ∀ (j : Nat) (h : j < items.size), j < place → passes items[j] = true
  behind : ∀ (j : Nat) (h : j < items.size), place ≤ j → passes items[j] = false

/-- In front of `size` items from `base` on everything passes, and behind them nothing does. -/
structure Encloses (passes : α → Bool) (items : Array α) (base size : Nat) : Prop where
  pos : 0 < size
  le_size : base + size ≤ items.size
  before : ∀ (j : Nat) (h : j < items.size), j < base → passes items[j] = true
  behind : ∀ (j : Nat) (h : j < items.size), base + size ≤ j → passes items[j] = false

variable {passes : α → Bool} {items : Array α} {base size : Nat}

/-- An item that passes has only such items in front of it. -/
theorem passes_of_le (hcut : items.toList.Pairwise fun a b => passes b = true → passes a = true)
    {i j : Nat} (hi : i < items.size) (hj : j < items.size) (hij : i ≤ j)
    (h : passes items[j] = true) : passes items[i] = true := by
  rcases Nat.eq_or_lt_of_le hij with rfl | hlt
  · exact h
  · exact List.pairwise_iff_getElem.mp hcut i j hi hj hlt h

/-- The item in the middle is tried: the half in front of it is left out if it passes, and as many
    items from there on if it does not. -/
theorem Encloses.half (h : Encloses passes items base size)
    (hcut : items.toList.Pairwise fun a b => passes b = true → passes a = true)
    (hsize : 1 < size) (hmiddle : base + size / 2 < items.size) :
    Encloses passes items
      (if passes items[base + size / 2] then base + size / 2 else base) (size - size / 2) := by
  have hle := h.le_size
  by_cases hpasses : passes items[base + size / 2] = true
  · -- Everything up to the middle passes.
    rw [if_pos hpasses]
    refine ⟨by omega, by omega, fun j hj hlt => ?_, fun j hj hge => ?_⟩
    · exact passes_of_le hcut hj hmiddle (Nat.le_of_lt hlt) hpasses
    · exact h.behind j hj (by omega)
  · rw [if_neg hpasses]
    refine ⟨by omega, by omega, h.before, fun j hj hge => ?_⟩
    -- The first half is not the longer one, so what is left out begins behind the item tried.
    exact Bool.eq_false_iff.mpr fun hj' => hpasses (passes_of_le hcut hmiddle hj (by omega) hj')

/-- A part with the cut in it is searched without an access beyond the end, and the cut is found. -/
theorem Encloses.exists_narrow (h : Encloses passes items base size)
    (hcut : items.toList.Pairwise fun a b => passes b = true → passes a = true) :
    ∃ place, narrow passes items base size = some place ∧
      CutAt passes items place := by
  fun_induction narrow passes items base size with
  -- The middle lies inside, so there is an item to try.
  | case1 base size hsize half ih =>
      have hle := h.le_size
      have hmiddle : base + half < items.size := by omega
      rw [Array.getElem?_eq_getElem hmiddle]
      exact ih items[base + half] (h.half hcut hsize hmiddle)
  | case2 base size hsize =>
      -- One item is left, and it tells on which side of it the cut is.
      have hpos := h.pos
      have hle := h.le_size
      have hlast : base < items.size := by omega
      rw [Array.getElem?_eq_getElem hlast]
      refine ⟨_, rfl, ?_⟩
      by_cases hpasses : passes items[base] = true
      · rw [if_pos hpasses]
        refine ⟨hlast, fun j hj hlt => ?_, fun j hj hge => h.behind j hj (by omega)⟩
        exact passes_of_le hcut hj hlast (Nat.le_of_lt_succ hlt) hpasses
      · rw [if_neg hpasses]
        refine ⟨Nat.le_of_lt hlast, h.before, fun j hj hge => ?_⟩
        rcases Nat.eq_or_lt_of_le hge with rfl | hgt
        · exact Bool.eq_false_iff.mpr hpasses
        · exact h.behind j hj (by omega)

/-- An array that a test cuts in two is searched to the end, and the place of the cut is found. -/
theorem exists_partitionPoint
    (hcut : items.toList.Pairwise fun a b => passes b = true → passes a = true) :
    ∃ place, partitionPoint passes items = some place ∧ CutAt passes items place := by
  rw [partitionPoint]
  by_cases hempty : items.isEmpty = true
  · rw [if_pos hempty]
    have hsize : items.size = 0 := Array.size_eq_zero_iff.mpr (Array.isEmpty_iff.mp hempty)
    have hnone : ∀ j, ¬ j < items.size := fun j hj => by omega
    exact ⟨0, rfl, Nat.zero_le _, fun j hj => absurd hj (hnone j), fun j hj => absurd hj (hnone j)⟩
  · rw [if_neg hempty]
    have hpos : 0 < items.size :=
      Array.size_pos_iff.mpr fun hnil => hempty (Array.isEmpty_iff.mpr hnil)
    -- At the start nothing is left out.
    have hall : Encloses passes items 0 items.size :=
      ⟨hpos, by omega, fun j _ hj => absurd hj (Nat.not_lt_zero j), fun j hj hge => by omega⟩
    exact hall.exists_narrow hcut

end CoinCommit
