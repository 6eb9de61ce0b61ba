import CoinCommit.Proofs.Merkle.Levels

/-!
# Folding in Place

A round needs no second list. The hash of a pair is written over a place of the
same array from which the pairs that follow are still to be read, and does not
disturb them: the pair that is read in turn `i` begins at place `2 * i`, and
only places before `i` have been written by then. `Turns` is this invariant. It
has two halves, what is written and what is still to be read, and a turn moves
one place from the second to the first.

Every access to the array is checked here, and a round that goes beyond its end
has no result. That there is always a result is part of what is proved.

## Main definitions

* `Merkle.writePair`: One turn of a round.
* `Merkle.foldRound`: A round, which leaves the level above in its place.
* `Merkle.foldRounds`: Rounds until one hash is left.
* `Merkle.Turns`: The array after some turns of a round.
* `LeafList.rootInPlace`: The root of a leaf list, folded in one array.

## Theorems

* `Merkle.getElem?_parents_eq_map`: The level above, place by place.
* `Merkle.Turns.writePair`: What a turn does.
* `Merkle.foldRound_eq`: A round leaves the level above.
* `LeafList.rootInPlace_eq`: The root is the one of the list.
-/

namespace CoinCommit

namespace Merkle

/-- What stands at a place of the level above, also beyond its end. -/
theorem getElem?_parents_eq_map (level : List Bytes32) (j : Nat) :
    (parents level)[j]? =
      level[2 * j]?.map fun left => hashPair left (level[2 * j + 1]?.getD left) := by
  by_cases h : 2 * j < level.length
  · rw [getElem?_parents level j h, List.getElem?_eq_getElem h, Option.map_some]
    by_cases hr : 2 * j + 1 < level.length
    · rw [dif_pos hr, List.getElem?_eq_getElem hr, Option.getD_some]
    · rw [dif_neg hr, List.getElem?_eq_none (Nat.le_of_not_lt hr), Option.getD_none]
  · -- Beyond the end there is no pair.
    have hlength := length_parents level
    rw [List.getElem?_eq_none (Nat.le_of_not_lt h), List.getElem?_eq_none (by omega),
      Option.map_none]

/-- One turn of a round over `count` hashes: the hash of the pair that begins at place `2 * i` is
    written over place `i`. A last hash without a neighbour is read twice. -/
def writePair (count : Nat) (level : Array Bytes32) (i : Nat) : Option (Array Bytes32) := do
  let left ← level[2 * i]?
  let right ← level[if 2 * i + 1 < count then 2 * i + 1 else 2 * i]?
  if h : i < level.size then return level.set i (hashPair left right) else none

/-- A round: a turn for each pair, after which the places that are not needed any more are cut
    off. -/
def foldRound (level : Array Bytes32) : Option (Array Bytes32) := do
  let half := (level.size + 1) / 2
  let written ← (List.range half).foldlM (writePair level.size) level
  return written.take half

/-- The array after the first `i` turns of a round: the hashes of the first `i` pairs, and behind
    them what was there before. -/
structure Turns (level : Array Bytes32) (i : Nat) (now : Array Bytes32) : Prop where
  size : now.size = level.size
  written : ∀ j, j < i → now[j]? = (parents level.toList)[j]?
  fresh : ∀ j, i ≤ j → now[j]? = level[j]?

theorem Turns.zero (level : Array Bytes32) : Turns level 0 level where
  size := rfl
  written _ hj := absurd hj (Nat.not_lt_zero _)
  fresh _ _ := rfl

-- A turn finds its pair untouched, as the pair does not begin before the place that is written.
theorem Turns.writePair_eq {level now : Array Bytes32} {i : Nat} (h : Turns level i now)
    {left : Bytes32} (hleft : level[2 * i]? = some left) (hi : i < now.size) :
    writePair level.size now i =
      some (now.set i (hashPair left (level[2 * i + 1]?.getD left))) := by
  have hright : now[if 2 * i + 1 < level.size then 2 * i + 1 else 2 * i]? =
      some (level[2 * i + 1]?.getD left) := by
    -- The right neighbour is not overwritten yet.
    by_cases hr : 2 * i + 1 < level.size
    · rw [if_pos hr, h.fresh _ (by omega), Array.getElem?_eq_getElem hr, Option.getD_some]
    · rw [if_neg hr, h.fresh _ (by omega), hleft,
        Array.getElem?_eq_none (Nat.le_of_not_lt hr), Option.getD_none]
  simp only [writePair, h.fresh (2 * i) (by omega), hleft, hright, Option.bind_eq_bind,
    Option.bind_some, hi, dite_true]
  rfl

/-- A turn writes the hash of the next pair and leaves the pairs that follow to be read. -/
theorem Turns.writePair {level now : Array Bytes32} {i : Nat} (h : Turns level i now)
    (hi : 2 * i < level.size) :
    ∃ next, Merkle.writePair level.size now i = some next ∧ Turns level (i + 1) next := by
  have hleft : level[2 * i]? = some level[2 * i] := Array.getElem?_eq_getElem hi
  have hplace : i < now.size := by
    rw [h.size]
    omega
  refine ⟨_, h.writePair_eq hleft hplace, ?_, ?_, ?_⟩
  · rw [Array.size_set, h.size]
  · intro j hj
    rw [Array.getElem?_set]
    -- The place just written has the hash of its pair, and the others are as they were.
    by_cases hji : i = j
    · rw [if_pos hji, ← hji, getElem?_parents_eq_map, Array.getElem?_toList,
        Array.getElem?_toList, hleft, Option.map_some]
    · rw [if_neg hji, h.written j (by omega)]
  · intro j hj
    rw [Array.getElem?_set, if_neg (by omega), h.fresh j (by omega)]

-- All turns of a round, by induction on their number.
theorem exists_turns (level : Array Bytes32) (n : Nat) (hn : n ≤ (level.size + 1) / 2) :
    ∃ now, (List.range n).foldlM (writePair level.size) level = some now ∧ Turns level n now := by
  induction n with
  | zero => exact ⟨level, rfl, Turns.zero level⟩
  | succ n ih =>
      rcases ih (by omega) with ⟨now, hnow, hturns⟩
      rcases hturns.writePair (by omega) with ⟨next, hnext, hturns'⟩
      refine ⟨next, ?_, hturns'⟩
      rw [List.range_succ, List.foldlM_append, hnow, Option.bind_eq_bind, Option.bind_some,
        List.foldlM_cons, hnext]
      rfl

/-- A round leaves the level above the one that it was begun with. -/
theorem foldRound_eq (level : Array Bytes32) :
    foldRound level = some (parents level.toList).toArray := by
  rcases exists_turns level _ (Nat.le_refl _) with ⟨now, hnow, hturns⟩
  have hround : foldRound level = some (now.take ((level.size + 1) / 2)) := by
    rw [foldRound, hnow]
    rfl
  have hsize := hturns.size
  have hlength : (parents level.toList).length = (level.size + 1) / 2 := length_parents level.toList
  rw [hround, Option.some.injEq, Array.take_eq_extract]
  refine Array.ext_getElem? fun j => ?_
  have hup : (parents level.toList).toArray[j]? = (parents level.toList)[j]? :=
    List.getElem?_toArray
  rw [hup, Array.getElem?_extract, Nat.zero_add]
  -- Within the first half everything has been written, and the rest is cut off.
  by_cases hj : j < (level.size + 1) / 2
  · rw [if_pos (by omega), hturns.written j hj]
  · rw [if_neg (by omega), List.getElem?_eq_none (by omega)]

/-- What is left of a level when rounds are made until there is nothing to pair. -/
def foldRounds (level : Array Bytes32) : Option (Array Bytes32) :=
  if 1 < level.size then
    match _hround : foldRound level with
    | some next => foldRounds next
    | none => none
  else some level
termination_by level.size
decreasing_by
  rw [foldRound_eq, Option.some.injEq] at _hround
  rw [← _hround, List.size_toArray, length_parents, Array.length_toList]
  omega

/-- Rounds leave the hash that the level folds into, and nothing of a level of no hashes. -/
theorem foldRounds_eq (level : List Bytes32) :
    foldRounds level.toArray = some (fold level).toList.toArray := by
  fun_induction fold level with
  | case1 =>
      rw [foldRounds]
      rfl
  | case2 a =>
      rw [foldRounds]
      rfl
  | case3 a b rest ih =>
      have hlong : 1 < (a :: b :: rest).toArray.size := by
        rw [List.size_toArray, List.length_cons, List.length_cons]
        omega
      rw [foldRounds, if_pos hlong]
      split
      · rename_i next hnext
        rw [foldRound_eq, Option.some.injEq] at hnext
        rw [← hnext, ih]
      · -- No round accesses the array beyond its end.
        rename_i hnone
        rw [foldRound_eq] at hnone
        cases hnone

end Merkle

/-- The root of a leaf list, folded in one array; absent if the array is accessed beyond its end. -/
def LeafList.rootInPlace (leaves : LeafList) : Option Root :=
  if leaves.toList.isEmpty then some .empty
  else do
    let level ← Merkle.foldRounds leaves.toList.toArray
    let h ← level[0]?
    return .hash h

/-- Folding in one array never goes beyond its end, and gives the root of the list. -/
theorem LeafList.rootInPlace_eq (leaves : LeafList) : leaves.rootInPlace = some leaves.root := by
  rw [rootInPlace, root, Merkle.foldRounds_eq]
  rcases hfold : Merkle.fold leaves.toList with _ | h
  · -- Nothing is left of no leaves.
    rw [Merkle.fold_eq_none_iff.mp hfold]
    rfl
  · have hne : leaves.toList ≠ [] := by
      intro hnil
      rw [Merkle.fold_eq_none_iff.mpr hnil] at hfold
      cases hfold
    rw [List.isEmpty_eq_false_iff.mpr hne]
    rfl

end CoinCommit
