import CoinCommit.Merkle.Root
import Mathlib.Algebra.Group.Nat.Defs
import Mathlib.Data.Nat.Log

/-!
# The Levels of a Fold

A fold is a recursion that keeps one level at a time; what is proved about
paths speaks of all levels at once. `level leaves k` names the one that is
reached after `k` rounds. A list of `n` leaves has `Nat.clog 2 n` rounds until
one hash is left, and the level after any of them still folds into the same
hash, so a statement about a whole fold is one about any level of it.

## Main definitions

* `Merkle.level`: The level after a number of rounds.
* `Merkle.SelfPaired`: A last place without a neighbour.

## Theorems

* `parents_append`: Levels can be cut at even places.
* `level_parents`: The levels above the leaves are those of the next level.
* `clog_length_parents`: A round lowers the height by one.
* `fold_level`: Every level folds into the same hash.
* `eq_singleton_of_fold`: A list without height is the hash it folds into.
-/

namespace CoinCommit

namespace Merkle

/-- The level that a list of leaves has become after `k` rounds. -/
def level (leaves : List Bytes32) : Nat → List Bytes32
  | 0 => leaves
  | k + 1 => parents (level leaves k)

/-- A place that has no neighbour: the last one of a level of odd length. -/
def SelfPaired (level : List Bytes32) (i : Nat) : Prop :=
  level.length % 2 = 1 ∧ i + 1 = level.length

instance (level : List Bytes32) (i : Nat) : Decidable (SelfPaired level i) :=
  inferInstanceAs (Decidable (_ ∧ _))

/-- A level can be cut at every even place. -/
theorem parents_append (xs ys : List Bytes32) (h : 2 ∣ xs.length) :
    parents (xs ++ ys) = parents xs ++ parents ys := by
  fun_induction parents xs with
  | case1 a b rest ih =>
      have hrest : 2 ∣ rest.length := by
        simp only [List.length_cons] at h
        omega
      rw [List.cons_append, List.cons_append, parents, ih hrest, List.cons_append]
  | case2 a =>
      rw [List.length_singleton] at h
      omega
  | case3 => rfl

theorem level_parents (leaves : List Bytes32) (k : Nat) :
    level (parents leaves) k = level leaves (k + 1) := by
  induction k with
  | zero => rfl
  | succ k ih =>
      show parents (level (parents leaves) k) = parents (level leaves (k + 1))
      rw [ih]

theorem clog_length_parents {leaves : List Bytes32} (h : 1 < leaves.length) :
    Nat.clog 2 leaves.length = Nat.clog 2 (parents leaves).length + 1 := by
  rw [length_parents]
  exact Nat.clog_of_two_le Nat.one_lt_two h

theorem one_lt_length_of_clog_pos {leaves : List Bytes32} (h : 0 < Nat.clog 2 leaves.length) :
    1 < leaves.length := by
  by_contra hc
  rw [Nat.clog_of_right_le_one (Nat.le_of_not_lt hc)] at h
  exact Nat.lt_irrefl 0 h

/-- After `k` rounds the height that is left is what the rounds did not use. -/
theorem clog_length_level (leaves : List Bytes32) (k : Nat)
    (hk : k ≤ Nat.clog 2 leaves.length) :
    Nat.clog 2 (level leaves k).length + k = Nat.clog 2 leaves.length := by
  induction k with
  | zero => rfl
  | succ k ih =>
      -- A round is left, so there is something to pair.
      have hrest := ih (by omega)
      have hlong : 1 < (level leaves k).length := one_lt_length_of_clog_pos (by omega)
      have hstep := clog_length_parents hlong
      rw [level]
      omega

/-- Every level on the way folds into the hash that the leaves fold into. -/
theorem fold_level (leaves : List Bytes32) (k : Nat) (hk : k ≤ Nat.clog 2 leaves.length) :
    fold (level leaves k) = fold leaves := by
  induction k with
  | zero => rfl
  | succ k ih =>
      have hheight := clog_length_level leaves k (by omega)
      have hlong : 1 < (level leaves k).length := one_lt_length_of_clog_pos (by omega)
      rw [level, ← fold_eq_fold_parents hlong]
      exact ih (by omega)

/-- A list of no height that folds into a hash is that hash alone. -/
theorem eq_singleton_of_fold {leaves : List Bytes32} {root : Bytes32}
    (hheight : Nat.clog 2 leaves.length = 0) (hfold : fold leaves = some root) :
    leaves = [root] := by
  match leaves, hheight, hfold with
  | [], _, hfold => rw [fold] at hfold; cases hfold
  | [a], _, hfold => rw [fold] at hfold; cases hfold; rfl
  | a :: b :: rest, hheight, _ =>
      have hpos : 0 < Nat.clog 2 (a :: b :: rest).length :=
        Nat.clog_pos Nat.one_lt_two (by simp only [List.length_cons]; omega)
      omega

end Merkle

end CoinCommit
