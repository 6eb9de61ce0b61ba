import CoinCommit.Proofs.Merkle.Strings
import CoinCommit.Proofs.Merkle.Walk

/-!
# Paths Mirror Levels

A path is written down from the leaf up, and so are the levels of the fold. Step
`k` of the path of a place belongs to level `k`: it leads from the place above
the leaf in that level, which is the place of the leaf without its last `k`
binary digits, and the digit that is dropped next is the side of the step.
`Path.Mirrors` says this of all steps at once, and says where the path has got to
before each of them.

Two invariants carry it from a level to the next. The place stays inside, since a
level is halved rounding up and a place rounding down; and what has been hashed
so far is the hash at the place. When one hash is left the place is its only one,
and all digits have been dropped. So the sides of a path, read as binary digits,
are the place that it was made for, and two places never have the same path.

## Main definitions

* `Path.Mirrors`: The steps of a path are those of the levels over a place.
* `Path.sides`: On which sides the siblings of a path stand.
* `Path.placeOf`: The number with given binary digits, the last one first.

## Theorems

* `Merkle.shiftRight_lt_length_level`: A place stays inside on the way up.
* `Path.getElem?_ofLevel`: Step `k` is the one of level `k`.
* `Path.getElem?_level_eq_apply_take`: The first `k` steps lead to level `k`.
* `Path.Mirrors.placeOf_sides`: The sides are the digits of the place.
* `LeafList.path_mirrors_levels`: What the path of a place in a list is.
-/

namespace CoinCommit

/-- Whether the steps of a path are those of the levels over a place: a step for each level that
    has something to pair, with the binary digit of the place as its side, and as its sibling the
    neighbour on that side, or the hash itself where it has none. -/
structure Path.Mirrors (path : Path) (leaves : List Bytes32) (i : Nat) : Prop where
  pairs : ∀ k, k < path.length → 1 < (Merkle.level leaves k).length
  top : (Merkle.level leaves path.length).length = 1
  inside : ∀ k, k ≤ path.length → i >>> k < (Merkle.level leaves k).length
  side : ∀ k (h : k < path.length), path[k].siblingIsLeft = i.testBit k
  sibling : ∀ k (h : k < path.length), some path[k].sibling =
    if i.testBit k then (Merkle.level leaves k)[(i >>> k) - 1]?
    else if (i >>> k) + 1 < (Merkle.level leaves k).length then
      (Merkle.level leaves k)[(i >>> k) + 1]?
    else (Merkle.level leaves k)[i >>> k]?
  leads : ∀ k, k ≤ path.length →
    (Merkle.level leaves k)[i >>> k]? = leaves[i]?.map (Path.apply (path.take k))

theorem testBit_eq_decide_shiftRight (i k : Nat) : i.testBit k = decide ((i >>> k) % 2 = 1) := by
  rw [Nat.testBit_eq_decide_div_mod_eq, Nat.shiftRight_eq_div_pow]

namespace Merkle

/-- A place without its last binary digits is inside the level above by as many rounds. -/
theorem shiftRight_lt_length_level {leaves : List Bytes32} {i : Nat} (h : i < leaves.length)
    (k : Nat) : i >>> k < (level leaves k).length := by
  induction k with
  | zero => exact h
  | succ k ih =>
      rw [Nat.shiftRight_succ, level]
      exact half_lt_length_parents ih

/-- After as many rounds as a list has, one hash is left. -/
theorem length_level_clog {leaves : List Bytes32} (h : leaves ≠ []) :
    (level leaves (Nat.clog 2 leaves.length)).length = 1 := by
  -- A place stays inside, so the last level has a hash; with two it would not be the last.
  have hinside := shiftRight_lt_length_level (List.length_pos_iff.mpr h)
    (Nat.clog 2 leaves.length)
  have hpos := Nat.zero_lt_of_lt hinside
  have hheight := clog_length_level leaves _ (Nat.le_refl _)
  have hshort : ¬ 1 < (level leaves (Nat.clog 2 leaves.length)).length := by
    intro hlong
    have hrounds := Nat.clog_pos Nat.one_lt_two hlong
    omega
  omega

end Merkle

namespace Path

/-- Step `k` of the path of a place leads from the place above it in level `k`. -/
theorem getElem?_ofLevel (leaves : List Bytes32) (i : Nat) (h : i < leaves.length) (k : Nat)
    (hk : k < Nat.clog 2 leaves.length) :
    (ofLevel leaves i h)[k]? = some (Merkle.stepAt (Merkle.level leaves k) (i >>> k)
      (Merkle.shiftRight_lt_length_level h k)) := by
  induction k generalizing leaves i with
  | zero =>
      rw [ofLevel, dif_neg (Nat.not_le_of_lt (Merkle.one_lt_length_of_clog_pos hk))]
      rfl
  | succ k ih =>
      -- The rest of the path is that of the place above, over the next level.
      have hlong : 1 < leaves.length := Merkle.one_lt_length_of_clog_pos (by omega)
      have hheight := Merkle.clog_length_parents hlong
      rw [ofLevel, dif_neg (Nat.not_le_of_lt hlong), List.getElem?_cons_succ,
        ih _ _ _ (by omega)]
      simp only [Merkle.level_parents, Nat.shiftRight_succ_inside]

theorem getElem_ofLevel (leaves : List Bytes32) (i : Nat) (h : i < leaves.length) (k : Nat)
    (hk : k < (ofLevel leaves i h).length) :
    (ofLevel leaves i h)[k] = Merkle.stepAt (Merkle.level leaves k) (i >>> k)
      (Merkle.shiftRight_lt_length_level h k) := by
  have hstep := getElem?_ofLevel leaves i h k (length_ofLevel leaves i h ▸ hk)
  rw [List.getElem?_eq_getElem hk, Option.some.injEq] at hstep
  exact hstep

/-- The first `k` steps of the path of a place lead to the place above it in level `k`. -/
theorem getElem?_level_eq_apply_take (leaves : List Bytes32) (i : Nat) (h : i < leaves.length)
    (k : Nat) (hk : k ≤ (ofLevel leaves i h).length) :
    (Merkle.level leaves k)[i >>> k]? =
      some (apply ((ofLevel leaves i h).take k) leaves[i]) := by
  induction k with
  | zero => exact List.getElem?_eq_getElem h
  | succ k ih =>
      have hinside := Merkle.shiftRight_lt_length_level h k
      -- The place below is where the steps so far lead, and the next step leads from there.
      have hbelow := ih (by omega)
      rw [List.getElem?_eq_getElem hinside, Option.some.injEq] at hbelow
      rw [← List.take_append_getElem (by omega), apply_append, ← hbelow,
        getElem_ofLevel leaves i h k (by omega), Nat.shiftRight_succ, Merkle.level,
        Merkle.getElem?_parents_half _ _ hinside]

theorem mirrors_ofLevel (leaves : List Bytes32) (i : Nat) (h : i < leaves.length) :
    (ofLevel leaves i h).Mirrors leaves i where
  pairs k hk := by
    rw [length_ofLevel] at hk
    have hheight := Merkle.clog_length_level leaves k (Nat.le_of_lt hk)
    exact Merkle.one_lt_length_of_clog_pos (by omega)
  top := by
    rw [length_ofLevel]
    exact Merkle.length_level_clog (List.ne_nil_of_length_pos (Nat.zero_lt_of_lt h))
  inside k _ := Merkle.shiftRight_lt_length_level h k
  side k hk := by
    rw [getElem_ofLevel leaves i h k hk, Merkle.siblingIsLeft_stepAt,
      testBit_eq_decide_shiftRight]
  sibling k hk := by
    rw [getElem_ofLevel leaves i h k hk, ← Merkle.getElem?_siblingPlace, Merkle.siblingPlace,
      testBit_eq_decide_shiftRight]
    -- An odd place has its sibling on the left.
    by_cases hodd : (i >>> k) % 2 = 1
    · rw [if_neg (by omega), if_pos (decide_eq_true hodd)]
    · rw [if_pos (by omega), decide_eq_false hodd, if_neg Bool.false_ne_true]
      split <;> rfl
  leads k hk := by
    rw [getElem?_level_eq_apply_take leaves i h k hk, List.getElem?_eq_getElem h, Option.map_some]

/-- On which sides the siblings of a path stand, from the leaf up. -/
def sides (path : Path) : List Bool := path.map PathStep.siblingIsLeft

/-- The number with these binary digits, of which the first counts least. -/
def placeOf (sides : List Bool) : Nat := Nat.ofBits fun k : Fin sides.length => sides[k]

/-- The sides of the steps over a place are the binary digits of the place, all of them. -/
theorem Mirrors.placeOf_sides {path : Path} {leaves : List Bytes32} {i : Nat}
    (h : path.Mirrors leaves i) : placeOf path.sides = i := by
  have hlength : path.sides.length = path.length := List.length_map _
  -- Above the last step nothing is left of the place, so it has no further digits.
  have hdigits : i < 2 ^ path.sides.length := by
    have hinside := h.inside path.length (Nat.le_refl _)
    rw [h.top, Nat.lt_one_iff, Nat.shiftRight_eq_div_pow] at hinside
    rw [hlength]
    exact Nat.lt_of_div_eq_zero (Nat.two_pow_pos _) hinside
  have hsides : (fun k : Fin path.sides.length => path.sides[k]) =
      fun k : Fin path.sides.length => i.testBit k := by
    funext k
    have hk : k.val < path.length := hlength ▸ k.isLt
    rw [← h.side k hk]
    exact List.getElem_map _
  rw [placeOf, hsides, Nat.ofBits_testBit, Nat.mod_eq_of_lt hdigits]

end Path

namespace LeafList

theorem mirrors_of_prove? {leaves : LeafList} {i : Nat} {path : Path}
    (h : leaves.prove? i = some path) : path.Mirrors leaves.toList i := by
  by_cases hi : i < leaves.toList.length
  · -- A path belongs to a place of the list.
    rw [prove?_eq_some hi, Option.some.injEq] at h
    rw [← h]
    exact Path.mirrors_ofLevel leaves.toList i hi
  · have hnone : leaves.prove? i = none := dif_neg hi
    rw [hnone] at h
    cases h

/-- A place in a list has a path, and the path mirrors the levels that the rounds of the fold leave,
    from the leaves up to the one hash that remains. The walk that collects it looks nowhere beyond
    the end of a level. The place is told from the sides of the path alone, so a path belongs to no
    other place, of this list or another. -/
theorem path_mirrors_levels (leaves : LeafList) (i : Nat) (h : i < leaves.length) :
    (∀ k, Merkle.foldRound (Merkle.level leaves.toList k).toArray =
      some (Merkle.level leaves.toList (k + 1)).toArray) ∧
    ∃ path, leaves.prove? i = some path ∧ leaves.proveInPlace i = some (some path) ∧
      path.Mirrors leaves.toList i ∧ Path.placeOf path.sides = i ∧
        ∀ (others : LeafList) (j : Nat) (other : Path),
          others.prove? j = some other → j ≠ i → other ≠ path := by
  have hpath : leaves.prove? i = some (Path.ofLevel leaves.toList i h) := prove?_eq_some h
  have hplace := (mirrors_of_prove? hpath).placeOf_sides
  refine ⟨fun k => Merkle.foldRound_eq _, _, hpath, ?_, mirrors_of_prove? hpath, hplace, ?_⟩
  · rw [proveInPlace_eq, hpath]
  · intro others j other hother hne heq
    -- The sides tell the place, and the two paths have the same ones.
    have hother := (mirrors_of_prove? hother).placeOf_sides
    rw [heq, hplace] at hother
    exact hne hother.symm

/-- The last of three leaves is paired with itself, and what comes of that stands on the right. -/
theorem path_mirrors_levels_of_three :
    2 < three.length ∧
      three.prove? 2 = some [⟨Bytes32.fill 3, false⟩,
        ⟨hashPair (Bytes32.fill 1) (Bytes32.fill 2), true⟩] ∧
          Path.placeOf [false, true] = 2 := by
  have h : 2 < three.length := by decide
  rcases (path_mirrors_levels three 2 h).2 with ⟨path, hpath, _, hmirrors, hplace, _⟩
  -- The levels have three, two and one hashes, which leaves room for two steps.
  have hone : (Merkle.level three.toList 1).length = 2 := rfl
  have htwo : (Merkle.level three.toList 2).length = 1 := rfl
  match path, hmirrors with
  | [], hmirrors => exact absurd hmirrors.top (by decide)
  | [_], hmirrors => exact absurd (hone.symm.trans hmirrors.top) (by decide)
  | [⟨first, firstSide⟩, ⟨second, secondSide⟩], hmirrors =>
      have hfirst : some first = some (Bytes32.fill 3) := hmirrors.sibling 0 Nat.two_pos
      have hsecond : some second = some (hashPair (Bytes32.fill 1) (Bytes32.fill 2)) :=
        hmirrors.sibling 1 Nat.one_lt_two
      have hfirstSide : firstSide = false := hmirrors.side 0 Nat.two_pos
      have hsecondSide : secondSide = true := hmirrors.side 1 Nat.one_lt_two
      subst hfirstSide hsecondSide
      cases hfirst
      cases hsecond
      exact ⟨h, hpath, hplace⟩
  | _ :: _ :: _ :: rest, hmirrors =>
      have hlong := hmirrors.pairs 2 (Nat.le_add_left 3 rest.length)
      rw [htwo] at hlong
      exact absurd hlong (Nat.lt_irrefl 1)

end LeafList

end CoinCommit
