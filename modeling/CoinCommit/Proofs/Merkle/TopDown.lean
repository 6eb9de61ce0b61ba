import CoinCommit.Proofs.Merkle.Completeness
import CoinCommit.Proofs.Merkle.InPlace
import Mathlib.Data.Option.NAry

/-!
# The Fold as a Tree

The fold goes up from the leaves, a level at a time. Seen from the root it is a
tree, which cuts its leaves in two at a power of two and each part again. Where
the leaves fit into the first part, the second one is that part again, so what
is paired with itself is a whole subtree and not its last leaf.

The two meet in one round: a tree over leaves is a tree over the level above
them that has one cut less. This holds for lists of any length, also for those
that have no tree of that height, and is all that an induction along the fold
needs.

## Main definitions

* `Merkle.topDown`: The hash at the root of the tree of some height.

## Theorems

* `Merkle.topDown_eq_none_iff`: Which lists have no tree of that height.
* `Merkle.topDown_parents`: A round takes one cut from the tree.
* `Merkle.fold_eq_topDown`: A list folds into the root of its tree.
* `LeafList.folds_top_down`: The root of a leaf list, from below and from above.
-/

namespace CoinCommit

namespace Merkle

/-- The hash at the root of the tree of height `k` over a list. A list that fits into the first half
    of the places makes up both halves. There is no tree over no hashes, and none over more than
    there are places. -/
def topDown : Nat → List Bytes32 → Option Bytes32
  | 0, [x] => some x
  | 0, _ => none
  | k + 1, xs =>
      if xs.length ≤ 2 ^ k then Option.map₂ hashPair (topDown k xs) (topDown k xs)
      else Option.map₂ hashPair (topDown k (xs.take (2 ^ k))) (topDown k (xs.drop (2 ^ k)))

theorem topDown_succ_of_le {k : Nat} {xs : List Bytes32} (h : xs.length ≤ 2 ^ k) :
    topDown (k + 1) xs = Option.map₂ hashPair (topDown k xs) (topDown k xs) := by
  rw [topDown, if_pos h]

theorem topDown_succ_of_lt {k : Nat} {xs : List Bytes32} (h : 2 ^ k < xs.length) :
    topDown (k + 1) xs =
      Option.map₂ hashPair (topDown k (xs.take (2 ^ k))) (topDown k (xs.drop (2 ^ k))) := by
  rw [topDown, if_neg (Nat.not_le.mpr h)]

/-- A tree of height `k` has at least one leaf and at most `2 ^ k`. -/
theorem topDown_eq_none_iff (k : Nat) (xs : List Bytes32) :
    topDown k xs = none ↔ xs.length = 0 ∨ 2 ^ k < xs.length := by
  induction k generalizing xs with
  | zero =>
      -- Only a list of one hash is a tree without a cut.
      match xs with
      | [] => exact iff_of_true rfl (Or.inl rfl)
      | [x] =>
          exact iff_of_false (Option.some_ne_none x) (by simp only [List.length_singleton]; omega)
      | x :: y :: rest => exact iff_of_true rfl (Or.inr (by simp only [List.length_cons]; omega))
  | succ k ih =>
      have hpos : 0 < 2 ^ k := Nat.pow_pos (by decide)
      have hpow : 2 ^ (k + 1) = 2 * 2 ^ k := Nat.pow_succ'
      by_cases hfit : xs.length ≤ 2 ^ k
      · -- Both halves are the same tree, which fits or does not.
        rw [topDown_succ_of_le hfit, Option.map₂_eq_none_iff, or_self, ih]
        omega
      · rw [topDown_succ_of_lt (Nat.lt_of_not_le hfit), Option.map₂_eq_none_iff, ih, ih,
          List.length_take, List.length_drop]
        omega

-- The smallest trees. More than two leaves have neither of them.
theorem topDown_parents_zero (xs : List Bytes32) : topDown 0 (parents xs) = topDown 1 xs := by
  match xs with
  | [] => rfl
  | [a] => rfl
  | [a, b] => rfl
  | a :: b :: c :: rest =>
      have hlength := length_parents (a :: b :: c :: rest)
      simp only [List.length_cons] at hlength
      rw [(topDown_eq_none_iff 0 _).mpr (Or.inr (by omega)),
        (topDown_eq_none_iff 1 _).mpr (Or.inr (by simp only [List.length_cons]; omega))]

/-- One round, and a tree over the level above has one cut less. -/
theorem topDown_parents (k : Nat) (xs : List Bytes32) :
    topDown k (parents xs) = topDown (k + 1) xs := by
  induction k generalizing xs with
  | zero => exact topDown_parents_zero xs
  | succ k ih =>
      have hpow : 2 ^ (k + 1) = 2 * 2 ^ k := Nat.pow_succ'
      have hlength := length_parents xs
      by_cases hfit : xs.length ≤ 2 ^ (k + 1)
      · -- Neither list is cut, and each makes up both halves.
        rw [topDown_succ_of_le hfit, topDown_succ_of_le (by omega), ih]
      · -- Both lists are cut, and at the same place, as the cut below is at an even one.
        have heven : 2 ∣ (xs.take (2 ^ (k + 1))).length := by
          rw [List.length_take]
          omega
        have hfirst : (parents (xs.take (2 ^ (k + 1)))).length = 2 ^ k := by
          rw [length_parents, List.length_take]
          omega
        have hcut := parents_append (xs.take (2 ^ (k + 1))) (xs.drop (2 ^ (k + 1))) heven
        rw [List.take_append_drop] at hcut
        have htake : (parents xs).take (2 ^ k) = parents (xs.take (2 ^ (k + 1))) := by
          rw [hcut, ← hfirst, List.take_left]
        have hdrop : (parents xs).drop (2 ^ k) = parents (xs.drop (2 ^ (k + 1))) := by
          rw [hcut, ← hfirst, List.drop_left]
        rw [topDown_succ_of_lt (Nat.lt_of_not_le hfit), topDown_succ_of_lt (by omega), htake, hdrop,
          ih, ih]

/-- A list folds into the root of the tree over it. -/
theorem fold_eq_topDown (leaves : List Bytes32) :
    fold leaves = topDown (Nat.clog 2 leaves.length) leaves := by
  fun_induction fold leaves with
  | case1 => rfl
  | case2 a => rfl
  -- One round is one cut at the lowest height.
  | case3 a b rest ih =>
      have hlong : 1 < (a :: b :: rest).length := by
        simp only [List.length_cons]
        omega
      rw [ih, topDown_parents, ← clog_length_parents hlong]

/-- Of five leaves the last is paired with itself, and what comes of that once more. -/
example (a b c d e : Bytes32) :
    topDown 3 [a, b, c, d, e] =
      some (hashPair (hashPair (hashPair a b) (hashPair c d))
        (hashPair (hashPair e e) (hashPair e e))) := rfl

end Merkle

namespace LeafList

/-- Only a list without leaves has no root. The root of any other is the one of the tree over its
    leaves, and can be had by folding them in one array. A round of that finds every place that it
    looks for, and leaves the hashes of the pairs that were in the array when it began. -/
theorem folds_top_down (leaves : LeafList) :
    (leaves.root = .empty ↔ leaves.toList = []) ∧
      (leaves.toList ≠ [] → ∃ h,
        Merkle.topDown (Nat.clog 2 leaves.length) leaves.toList = some h ∧ leaves.root = .hash h) ∧
      leaves.rootInPlace = some leaves.root ∧
      ∀ level : Array Bytes32, ∃ next, Merkle.foldRound level = some next ∧
        next.size = (level.size + 1) / 2 ∧
          ∀ j, next[j]? =
            level[2 * j]?.map fun left => hashPair left (level[2 * j + 1]?.getD left) := by
  refine ⟨root_eq_empty_iff, ?_, leaves.rootInPlace_eq, ?_⟩
  · intro hne
    -- A list with leaves folds into something.
    rcases hfold : Merkle.fold leaves.toList with _ | h
    · exact absurd (Merkle.fold_eq_none_iff.mp hfold) hne
    · refine ⟨h, ?_, root_eq_of_fold hfold⟩
      rw [← hfold, Merkle.fold_eq_topDown, length]
  · intro level
    refine ⟨_, Merkle.foldRound_eq level, ?_, fun j => ?_⟩
    · rw [List.size_toArray, Merkle.length_parents, Array.length_toList]
    · rw [List.getElem?_toArray, Merkle.getElem?_parents_eq_map, Array.getElem?_toList,
        Array.getElem?_toList]

/-- A list of three leaves is cut behind the second one, and the third makes up both halves of its
    part. -/
theorem folds_top_down_of_three :
    three.toList ≠ [] ∧ three.root = .hash
      (hashPair (hashPair (Bytes32.fill 1) (Bytes32.fill 2))
        (hashPair (Bytes32.fill 3) (Bytes32.fill 3))) := by
  have hne : three.toList ≠ [] := List.cons_ne_nil _ _
  rcases (folds_top_down three).2.1 hne with ⟨h, htree, hroot⟩
  refine ⟨hne, ?_⟩
  have htwo : Nat.clog 2 three.length = 2 := by decide +kernel
  rw [htwo] at htree
  cases htree
  exact hroot

end LeafList

end CoinCommit
