import CoinCommit.Proofs.Merkle.Completeness
import CoinCommit.Proofs.Merkle.InPlace

/-!
# Walking in Place

The siblings of a place are collected while the leaves are folded in one array:
the sibling is read off the level that the array holds, a round makes it hold the
next one, and the place is halved. `Path.ofLevel` has a proof with it that the
place is inside its level, and so it cannot look anywhere else. The walk has no
such proof. It computes where the sibling is and looks there, and where there is
nothing it has no result.

That there always is a result needs the two halvings to agree: a level is halved
rounding up and a place rounding down, so a place that was inside still is.

## Main definitions

* `Merkle.siblingPlace`: Where the sibling of a place is.
* `Merkle.walk`: The siblings on the way up, read off one array.
* `LeafList.proveInPlace`: The path of a place in a leaf list, collected by the
  walk.

## Theorems

* `Merkle.siblingIsLeft_stepAt`, `getElem?_siblingPlace`: The step from a place.
* `Merkle.walk_eq`: The walk collects the path of its place.
* `LeafList.proveInPlace_eq`: Every access finds what it looks for.
-/

namespace CoinCommit

namespace Merkle

/-- Where the hash is that a place is paired with: on the left of an odd place and on the right of
    an even one, and at the place itself where nothing is on its right. -/
def siblingPlace (size i : Nat) : Nat :=
  if i % 2 = 0 then
    if i + 1 < size then i + 1 else i
  else i - 1

theorem siblingIsLeft_stepAt (level : List Bytes32) (i : Nat) (h : i < level.length) :
    (stepAt level i h).siblingIsLeft = decide (i % 2 = 1) := by
  by_cases hi : i % 2 = 1
  · simp only [stepAt, hi, if_true, decide_true]
  · by_cases hr : i + 1 < level.length
    · simp only [stepAt, hi, if_false, dif_pos hr, decide_false]
    · simp only [stepAt, hi, if_false, dif_neg hr, decide_false]

/-- The place of the sibling is inside the level, and the sibling stands there. -/
theorem getElem?_siblingPlace (level : List Bytes32) (i : Nat) (h : i < level.length) :
    level[siblingPlace level.length i]? = some (stepAt level i h).sibling := by
  by_cases hi : i % 2 = 1
  · -- An odd place has its neighbour on the left.
    have hleft : siblingPlace level.length i = i - 1 := by
      rw [siblingPlace, if_neg (by omega)]
    rw [hleft, List.getElem?_eq_getElem (by omega)]
    simp only [stepAt, hi, if_true]
  · have heven : i % 2 = 0 := by omega
    by_cases hr : i + 1 < level.length
    · have hright : siblingPlace level.length i = i + 1 := by
        rw [siblingPlace, if_pos heven, if_pos hr]
      rw [hright, List.getElem?_eq_getElem hr]
      simp only [stepAt, hi, if_false, dif_pos hr]
    · -- Nothing is on its right, so it is paired with itself.
      have hself : siblingPlace level.length i = i := by
        rw [siblingPlace, if_pos heven, if_neg hr]
      rw [hself, List.getElem?_eq_getElem h]
      simp only [stepAt, hi, if_false, dif_neg hr]

/-- The siblings of a place and of the places above it, read off an array that is folded round by
    round; absent if the array is accessed beyond its end. -/
def walk (level : Array Bytes32) (i : Nat) : Option Path :=
  if 1 < level.size then do
    let sibling ← level[siblingPlace level.size i]?
    match _hround : foldRound level with
    | some next =>
        let rest ← walk next (i >>> 1)
        return ⟨sibling, decide (i % 2 = 1)⟩ :: rest
    | none => none
  else some []
termination_by level.size
decreasing_by
  rw [foldRound_eq, Option.some.injEq] at _hround
  rw [← _hround, List.size_toArray, length_parents, Array.length_toList]
  omega

/-- From a place inside the level the walk finds every sibling, and they make up the path. -/
theorem walk_eq (level : List Bytes32) (i : Nat) (h : i < level.length) :
    walk level.toArray i = some (Path.ofLevel level i h) := by
  fun_induction Path.ofLevel level i h with
  -- No step is left to be made.
  | case1 level i h hle =>
      rw [walk, List.size_toArray, if_neg (Nat.not_lt_of_le hle)]
  | case2 level i h hgt ih =>
      have hsibling : level.toArray[siblingPlace level.length i]? =
          some (stepAt level i h).sibling := by
        rw [List.getElem?_toArray, getElem?_siblingPlace level i h]
      rw [walk, List.size_toArray, if_pos (Nat.lt_of_not_le hgt), hsibling, Option.bind_eq_bind,
        Option.bind_some]
      split
      · rename_i next hnext
        -- The array now holds the next level, and the place in it is half of what it was.
        rw [foldRound_eq, Option.some.injEq] at hnext
        rw [← hnext, Nat.shiftRight_one, ih, ← siblingIsLeft_stepAt level i h]
        rfl
      · -- No round accesses the array beyond its end.
        rename_i hnone
        rw [foldRound_eq] at hnone
        cases hnone

end Merkle

/-- The path of a place in a leaf list, collected by the walk. The outer result is absent if an
    array is accessed beyond its end, the inner one if the place is. -/
def LeafList.proveInPlace (leaves : LeafList) (i : Nat) : Option (Option Path) :=
  if leaves.length ≤ i then some none
  else (Merkle.walk leaves.toList.toArray i).map some

/-- The walk never goes beyond an end, and collects the path that the list has for the place. -/
theorem LeafList.proveInPlace_eq (leaves : LeafList) (i : Nat) :
    leaves.proveInPlace i = some (leaves.prove? i) := by
  by_cases h : i < leaves.toList.length
  · rw [proveInPlace, length, if_neg (Nat.not_le_of_lt h), Merkle.walk_eq _ i h, prove?_eq_some h,
      Option.map_some]
  · -- The place is not in the list.
    have hnone : leaves.prove? i = none := dif_neg h
    rw [proveInPlace, length, if_pos (Nat.le_of_not_lt h), hnone]

end CoinCommit
