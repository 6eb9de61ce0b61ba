import CoinCommit.Merkle.Root

/-!
# Inclusion Proofs

A proof that a leaf belongs to a root is the list of its siblings on the way
up: at each level the hash it is paired with, and the side on which that hash
stands. The path of a place is read off the levels of the fold; a last hash
without a neighbour is its own sibling. Checking a path needs the leaf, the
path and the root only, and accepts a path of any length.

## Main definitions

* `PathStep`, `Path`: A sibling with its side, and the steps from leaf to root.
* `Path.ofLevel`: The path of a place in a level.
* `LeafList.prove?`: The path of a place in a leaf list.
* `Path.apply`: The hash to which a path leads.
* `Path.verifies`: Whether a path leads from a leaf to a root.

## Theorems

* `Path.apply_ofLevel`: The path of a place leads to what its level folds into.
-/

namespace CoinCommit

/-- One step up: the hash that is paired with the current one, and whether it stands on its
    left. -/
structure PathStep where
  sibling : Bytes32
  siblingIsLeft : Bool
deriving DecidableEq

/-- The steps from a leaf to the root. -/
abbrev Path := List PathStep

namespace Merkle

/-- The place in the level above of what stands at a place. -/
theorem half_lt_length_parents {level : List Bytes32} {i : Nat} (h : i < level.length) :
    i / 2 < (parents level).length := by
  rw [length_parents]
  omega

/-- What the hash at a place is paired with: its left neighbour at an odd place, its right one at
    an even place, and itself at an even place that is the last. -/
def stepAt (level : List Bytes32) (i : Nat) (h : i < level.length) : PathStep :=
  if i % 2 = 1 then ⟨level[i - 1], true⟩
  else if hr : i + 1 < level.length then ⟨level[i + 1], false⟩
  else ⟨level[i], false⟩

end Merkle

namespace Path

/-- The path of a place in a level up to the hash that the level folds into. -/
def ofLevel (level : List Bytes32) (i : Nat) (h : i < level.length) : Path :=
  if _ : level.length ≤ 1 then []
  else
    Merkle.stepAt level i h ::
      ofLevel (Merkle.parents level) (i / 2) (Merkle.half_lt_length_parents h)
termination_by level.length
decreasing_by
  rw [Merkle.length_parents]
  omega

/-- The hash to which a path leads from a leaf. -/
def apply (path : Path) (leaf : Bytes32) : Bytes32 :=
  path.foldl
    (fun current step =>
      if step.siblingIsLeft then hashPair step.sibling current
      else hashPair current step.sibling)
    leaf

theorem apply_cons (step : PathStep) (rest : Path) (leaf : Bytes32) :
    apply (step :: rest) leaf = apply rest (apply [step] leaf) := rfl

/-- Whether a path leads from a leaf to a root. Nothing leads to the root of no leaves. -/
def verifies (path : Path) (leaf : Bytes32) : Root → Bool
  | .empty => false
  | .hash h => path.apply leaf = h

end Path

namespace Merkle

/-- The first step from a place leads to the hash above it. -/
theorem getElem?_parents_half (level : List Bytes32) (i : Nat) (h : i < level.length) :
    (parents level)[i / 2]? = some (Path.apply [stepAt level i h] level[i]) := by
  rw [getElem?_parents level (i / 2) (by omega)]
  by_cases hi : i % 2 = 1
  · -- At an odd place the sibling is the left neighbour, which starts the pair.
    have h2 : 2 * (i / 2) = i - 1 := by omega
    have h3 : i - 1 + 1 = i := by omega
    simp only [stepAt, hi, if_true, Path.apply, List.foldl_cons, List.foldl_nil, h2, h3, h,
      dite_true]
  · -- At an even place the pair starts here and may lack its right half.
    have h2 : 2 * (i / 2) = i := by omega
    by_cases hr : i + 1 < level.length
    · simp only [stepAt, hi, if_false, Path.apply, List.foldl_cons, List.foldl_nil, h2, hr,
        dite_true, Bool.false_eq_true]
    · simp only [stepAt, hi, if_false, Path.apply, List.foldl_cons, List.foldl_nil, h2, hr,
        dite_false, Bool.false_eq_true]

end Merkle

/-- The path of a place in a level leads to the hash that the level folds into. -/
theorem Path.apply_ofLevel (level : List Bytes32) (i : Nat) (h : i < level.length) :
    Merkle.fold level = some ((Path.ofLevel level i h).apply level[i]) := by
  fun_induction Path.ofLevel level i h with
  | case1 level i h hle =>
      -- A level of one hash is folded already, and its only place has the empty path.
      match level, h, hle with
      | [a], h, _ =>
          have hi : i = 0 := by
            rw [List.length_singleton] at h
            omega
          subst hi
          rw [Merkle.fold]
          rfl
      | a :: b :: rest, _, hle => exact absurd hle (by simp only [List.length_cons]; omega)
  | case2 level i h hgt ih =>
      -- The first step leads to the place above, and the rest of the path starts there.
      have hup := Merkle.getElem?_parents_half level i h
      rw [List.getElem?_eq_getElem (Merkle.half_lt_length_parents h), Option.some.injEq] at hup
      rw [Merkle.fold_eq_fold_parents (by omega), ih, Path.apply_cons, hup]

/-- The path of a place in a leaf list; absent beyond its end. -/
def LeafList.prove? (leaves : LeafList) (i : Nat) : Option Path :=
  if h : i < leaves.toList.length then some (Path.ofLevel leaves.toList i h) else none

end CoinCommit
