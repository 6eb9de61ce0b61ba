import CoinCommit.Hash.Sha3
import CoinCommit.Merkle.LeafList

/-!
# The Root of a Leaf List

A level of hashes is folded into the level above it: neighbours are hashed in
pairs, and a last hash without a neighbour is paired with itself. Folding until
one hash is left gives the root. No leaves have no root, which a `Root` says
outright: the 32 zero bytes that stand for it in print are a root like any
other when they are read.

## Main definitions

* `Merkle.parents`: The level above a level.
* `Merkle.fold`: The hash that remains of a level.
* `Root`: A root, or the mark of an empty list.
* `LeafList.root`: The root of a leaf list.

## Theorems

* `Merkle.length_parents`: A level is half as long as the one below, rounded up.
* `Merkle.getElem?_parents`: What stands at each of its places.
* `Merkle.fold_eq_none_iff`: Only a list without hashes folds into nothing.
* `LeafList.root_eq_of_fold`: The root is what the leaves fold into.
* `LeafList.root_eq_empty_iff`, `LeafList.root_ofList_singleton`: The root of no
  leaves, and that of one.
-/

namespace CoinCommit

namespace Merkle

/-- The level above a level: neighbours in pairs, a last one alone with itself. -/
def parents : List Bytes32 → List Bytes32
  | a :: b :: rest => hashPair a b :: parents rest
  | [a] => [hashPair a a]
  | [] => []

theorem length_parents (level : List Bytes32) :
    (parents level).length = (level.length + 1) / 2 := by
  fun_induction parents level with
  -- A pair is two hashes below and one above.
  | case1 a b rest ih =>
      simp only [List.length_cons, ih]
      omega
  | case2 a => simp only [List.length_cons, List.length_nil]
  | case3 => rfl

/-- What stands at a place of the level above: the hash of the two below it, of which a last one
    alone counts twice. -/
theorem getElem?_parents (level : List Bytes32) (j : Nat) (h : 2 * j < level.length) :
    (parents level)[j]? = some (hashPair level[2 * j]
      (if hr : 2 * j + 1 < level.length then level[2 * j + 1] else level[2 * j])) := by
  fun_induction parents level generalizing j with
  | case1 a b rest ih =>
      cases j with
      | zero =>
          have hr : 2 * 0 + 1 < (a :: b :: rest).length := by
            simp only [List.length_cons]
            omega
          rw [dif_pos hr]
          rfl
      | succ j =>
          -- Behind the first pair, places count from the rest of the level.
          have hj : 2 * j < rest.length := by
            simp only [List.length_cons] at h
            omega
          have h2 : 2 * (j + 1) = 2 * j + 1 + 1 := by omega
          simp only [List.getElem?_cons_succ, ih j hj, h2, List.getElem_cons_succ,
            List.length_cons, Nat.add_lt_add_iff_right]
  | case2 a =>
      -- Only the first place is there.
      have hj : j = 0 := by
        rw [List.length_singleton] at h
        omega
      subst hj
      rfl
  | case3 => exact absurd h (Nat.not_lt_zero (2 * j))

/-- The hash that remains when a level is folded; absent for a level of no hashes. -/
def fold : List Bytes32 → Option Bytes32
  | [] => none
  | [a] => some a
  | a :: b :: rest => fold (parents (a :: b :: rest))
termination_by level => level.length
decreasing_by
  rw [length_parents]
  simp only [List.length_cons]
  omega

/-- Every list folds into a hash but the one without hashes. -/
theorem fold_eq_none_iff {leaves : List Bytes32} : fold leaves = none ↔ leaves = [] := by
  fun_induction fold leaves with
  | case1 => exact iff_of_true rfl rfl
  | case2 a => exact iff_of_false (Option.some_ne_none a) (List.cons_ne_nil a [])
  | case3 a b rest ih =>
      -- A level above hashes has hashes, so neither side holds.
      rw [ih, parents]
      exact iff_of_false (List.cons_ne_nil _ _) (List.cons_ne_nil _ _)

/-- A level of several hashes folds into what the level above it folds into. -/
theorem fold_eq_fold_parents {level : List Bytes32} (h : 1 < level.length) :
    fold level = fold (parents level) := by
  match level with
  | [] => exact absurd h (Nat.not_lt_zero 1)
  | [a] => exact absurd h (Nat.lt_irrefl 1)
  | a :: b :: rest => rw [fold]

end Merkle

/-- The commitment to a list of leaves: a hash, or the mark that there are none. -/
inductive Root where
  | empty
  | hash (h : Bytes32)
deriving DecidableEq

namespace Root

/-- The hash of a root that has one. -/
def hash? : Root → Option Bytes32
  | .empty => none
  | .hash h => some h

/-- Whether this is the mark of no leaves. -/
def isEmpty : Root → Bool
  | .empty => true
  | .hash _ => false

/-- The 32 bytes under which a root is published, zeros where there is no hash. -/
def toBytes (r : Root) : Bytes32 := r.hash?.getD Bytes32.zero

end Root

namespace LeafList

variable {leaves : LeafList}

/-- The root of a leaf list. -/
def root (leaves : LeafList) : Root :=
  match Merkle.fold leaves.toList with
  | some h => .hash h
  | none => .empty

theorem root_eq_of_fold {h : Bytes32} (hfold : Merkle.fold leaves.toList = some h) :
    leaves.root = .hash h := by
  simp only [root, hfold]

theorem root_eq_empty_iff : leaves.root = .empty ↔ leaves.toList = [] := by
  rw [← Merkle.fold_eq_none_iff, root]
  rcases Merkle.fold leaves.toList with _ | h
  · exact iff_of_true rfl rfl
  · exact iff_of_false Root.noConfusion (Option.some_ne_none h)

theorem exists_root_of_ne_nil (h : leaves.toList ≠ []) : ∃ hash, leaves.root = .hash hash := by
  rcases hroot : leaves.root with _ | hash
  · exact absurd (root_eq_empty_iff.mp hroot) h
  · exact ⟨hash, rfl⟩

/-- A single leaf is its own root. -/
theorem root_ofList_singleton (leaf : Bytes32) : (ofList [leaf]).root = .hash leaf := by
  have hsingle : ofList [leaf] = ⟨[leaf], List.pairwise_singleton _ _⟩ :=
    eq_of_perm (perm_ofList [leaf])
  rw [hsingle]
  apply root_eq_of_fold
  rw [Merkle.fold]

end LeafList

end CoinCommit
