import CoinCommit.Proofs.Merkle.Completeness
import CoinCommit.Proofs.Merkle.Strings

/-!
# Full Paths Start at Leaves

A path comes from whoever makes the claim, so nothing may be assumed of its
siblings or its sides. What it cannot choose is where it ends. If it has as
many steps as the fold has rounds and ends at the root, then each step, read
from the root down, hashes a string that the fold hashed too: the two halves of
that string are the two hashes of the level below, and the path goes through
one of them. At the bottom it stands at a leaf.

On the way down every choice of the path is used up but one. Where a level has
odd length its last hash is paired with itself, both halves of the string are
the same, and the path may put its sibling on either side. `Path.Alike` says
that two paths differ in such sides only.

The induction runs from the leaf up, along the path and the levels together;
what is known at the root reaches a level through the induction hypothesis for
the level above it.

## Main definitions

* `Path.Alike`: Two paths with the same siblings, and the same sides except at
  self-paired places.

## Theorems

* `Path.alike_cons`: The first step, and the rest one level up.
* `Merkle.exists_place_below`: A step to a place of the next level starts at
  one of the two places below it.
* `Path.exists_place`: A full path to the root starts at a leaf.
* `Path.apply_of_alike`: Paths that are alike end at the same hash.
* `LeafList.verifies_full_path_iff`: Which full paths are accepted.
-/

namespace CoinCommit

/-- Whether a path has the siblings of another from place `i`, and its sides at every step at
    which the place is not paired with itself. -/
def Path.Alike (leaves : List Bytes32) (i : Nat) (p q : Path) : Prop :=
  p.map PathStep.sibling = q.map PathStep.sibling ∧
    ∀ k, k < p.length →
      p[k]?.map PathStep.siblingIsLeft = q[k]?.map PathStep.siblingIsLeft ∨
        Merkle.SelfPaired (Merkle.level leaves k) (i / 2 ^ k)

theorem Path.alike_cons (leaves : List Bytes32) (i : Nat) (s t : PathStep) (p q : Path) :
    Path.Alike leaves i (s :: p) (t :: q) ↔
      s.sibling = t.sibling ∧
        (s.siblingIsLeft = t.siblingIsLeft ∨ Merkle.SelfPaired leaves i) ∧
          Path.Alike (Merkle.parents leaves) (i / 2) p q := by
  have hhalf : ∀ k, i / 2 ^ (k + 1) = i / 2 / 2 ^ k := by
    intro k
    rw [Nat.div_div_eq_div_mul, Nat.pow_succ']
  constructor
  · intro h
    rcases h with ⟨hsib, hside⟩
    simp only [List.map_cons, List.cons.injEq] at hsib
    refine ⟨hsib.1, ?_, hsib.2, ?_⟩
    · have h0 := hside 0 (by simp only [List.length_cons]; omega)
      simpa only [List.getElem?_cons_zero, Option.map_some, Option.some.injEq, Merkle.level,
        Nat.pow_zero, Nat.div_one] using h0
    · intro k hk
      have hk1 := hside (k + 1) (by simp only [List.length_cons]; omega)
      simpa only [List.getElem?_cons_succ, ← Merkle.level_parents, hhalf] using hk1
  · intro h
    rcases h with ⟨hsib, hfirst, hsibs, hside⟩
    refine ⟨by simp only [List.map_cons, hsib, hsibs], ?_⟩
    intro k hk
    cases k with
    | zero =>
        simpa only [List.getElem?_cons_zero, Option.map_some, Option.some.injEq, Merkle.level,
          Nat.pow_zero, Nat.div_one] using hfirst
    | succ k =>
        have hk1 := hside k (by simp only [List.length_cons] at hk; omega)
        simpa only [List.getElem?_cons_succ, ← Merkle.level_parents, hhalf] using hk1

namespace Merkle

/-- A step that leads to a place of the next level starts at one of the two places below, with
    the sibling that stands there. Its side is fixed too unless the place is paired with itself. -/
theorem exists_place_below {strings : List Bytes} (hsep : Separated strings)
    (level : List Bytes32) (hpairs : pairStrings level ⊆ strings) (step : PathStep) (x : Bytes32)
    (hstep : step.string x ∈ strings) (j : Nat) (hj : j < (parents level).length)
    (hup : sha3 (step.string x) = (parents level)[j]) :
    ∃ i, ∃ h : i < level.length, i / 2 = j ∧ x = level[i] ∧
      step.sibling = (stepAt level i h).sibling ∧
        (step.siblingIsLeft = (stepAt level i h).siblingIsLeft ∨ SelfPaired level i) := by
  have h2 : 2 * j < level.length := by
    rw [length_parents] at hj
    omega
  have hget := getElem?_parents level j h2
  rw [List.getElem?_eq_getElem hj, Option.some.injEq] at hget
  -- The step hashes the string that the fold hashed at this place.
  have hstring := hsep _ hstep _ (hpairs (mem_pairStrings level j h2)) (hup.trans hget)
  have heven : ¬ 2 * j % 2 = 1 := by omega
  have hodd : (2 * j + 1) % 2 = 1 := by omega
  by_cases hr : 2 * j + 1 < level.length
  · -- The two places below hold the two halves.
    simp only [dif_pos hr] at hstring
    cases hside : step.siblingIsLeft with
    | true =>
        rw [PathStep.string, if_pos hside] at hstring
        rcases pairString_injective hstring with ⟨hsib, hx⟩
        refine ⟨2 * j + 1, hr, by omega, hx, ?_, Or.inl ?_⟩
        · simp only [stepAt, hodd, if_true, Nat.add_sub_cancel]
          exact hsib
        · simp only [stepAt, hodd, if_true]
    | false =>
        rw [PathStep.string, if_neg (by rw [hside]; exact Bool.false_ne_true)] at hstring
        rcases pairString_injective hstring with ⟨hx, hsib⟩
        refine ⟨2 * j, h2, by omega, hx, ?_, Or.inl ?_⟩
        · simp only [stepAt, heven, if_false, dif_pos hr]
          exact hsib
        · simp only [stepAt, heven, if_false, dif_pos hr]
  · -- The place below is the last of an odd level, and both halves are its hash.
    simp only [dif_neg hr] at hstring
    have hself : SelfPaired level (2 * j) := ⟨by omega, by omega⟩
    have hboth : step.sibling = level[2 * j] ∧ x = level[2 * j] := by
      unfold PathStep.string at hstring
      split at hstring
      · exact pairString_injective hstring
      · exact (pairString_injective hstring).symm
    refine ⟨2 * j, h2, by omega, hboth.2, ?_, Or.inr hself⟩
    simp only [stepAt, heven, if_false, dif_neg hr]
    exact hboth.1

/-- A step with the sibling of a place leads to the place above, on whichever side the sibling
    stands where the place is paired with itself. -/
theorem sha3_string_of_alike (level : List Bytes32) (i : Nat) (h : i < level.length)
    (step : PathStep) (hsib : step.sibling = (stepAt level i h).sibling)
    (hside : step.siblingIsLeft = (stepAt level i h).siblingIsLeft ∨ SelfPaired level i) :
    some (sha3 (step.string level[i])) = (parents level)[i / 2]? := by
  have hstring : step.string level[i] = (stepAt level i h).string level[i] := by
    rcases hside with hside | ⟨hodd, hlast⟩
    · simp only [PathStep.string, hsib, hside]
    · -- The sibling is the hash itself, so both orders give the same string.
      have heven : ¬ i % 2 = 1 := by omega
      have hr : ¬ i + 1 < level.length := by omega
      have hat : stepAt level i h = ⟨level[i], false⟩ := by
        simp only [stepAt, heven, if_false, dif_neg hr]
      rw [hat] at hsib ⊢
      simp only [PathStep.string, hsib, ite_self]
  rw [hstring, getElem?_parents_half level i h, Path.apply_singleton]

end Merkle

namespace Path

theorem ofLevel_of_one_lt {level : List Bytes32} {i : Nat} (h : i < level.length)
    (hlong : 1 < level.length) :
    ofLevel level i h =
      Merkle.stepAt level i h ::
        ofLevel (Merkle.parents level) (i / 2) (Merkle.half_lt_length_parents h) := by
  rw [ofLevel, dif_neg (Nat.not_le_of_lt hlong)]

/-- A full path that ends at the root starts at a leaf, and it is the path of that leaf's place up
    to the sides that do not matter. -/
theorem exists_place (path : Path) (leaves : List Bytes32) (x : Bytes32)
    (hlen : path.length = Nat.clog 2 leaves.length)
    (hfold : Merkle.fold leaves = some (path.apply x))
    (hsep : Separated (Merkle.foldStrings leaves ++ path.strings x)) :
    ∃ i, ∃ h : i < leaves.length, x = leaves[i] ∧
      Path.Alike leaves i path (ofLevel leaves i h) := by
  induction path generalizing leaves x with
  | nil =>
      -- No step: the leaf is the only one.
      have hone : leaves = [x] := Merkle.eq_singleton_of_fold hlen.symm hfold
      subst hone
      refine ⟨0, Nat.zero_lt_one, rfl, ?_⟩
      rw [ofLevel, dif_pos (show [x].length ≤ 1 from Nat.le_refl 1)]
      exact ⟨rfl, fun k hk => absurd hk (Nat.not_lt_zero k)⟩
  | cons step rest ih =>
      have hlong : 1 < leaves.length := by
        apply Merkle.one_lt_length_of_clog_pos
        rw [← hlen, List.length_cons]
        exact Nat.succ_pos _
      rw [Merkle.clog_length_parents hlong, List.length_cons, Nat.add_right_cancel_iff] at hlen
      rw [Merkle.fold_eq_fold_parents hlong, apply_step] at hfold
      have hpairs : Merkle.pairStrings leaves ⊆ Merkle.foldStrings leaves ++
          strings (step :: rest) x :=
        List.Subset.trans (Merkle.pairStrings_subset hlong) (List.subset_append_left _ _)
      have hstep : step.string x ∈ Merkle.foldStrings leaves ++ strings (step :: rest) x :=
        List.mem_append_right _ List.mem_cons_self
      have hrest : Separated (Merkle.foldStrings (Merkle.parents leaves) ++
          strings rest (sha3 (step.string x))) :=
        hsep.of_subset (List.append_subset.mpr
          ⟨List.Subset.trans (Merkle.foldStrings_parents_subset hlong)
            (List.subset_append_left _ _),
          List.Subset.trans (List.subset_cons_self _ _) (List.subset_append_right _ _)⟩)
      -- One level up the rest of the path starts at a place of the next level, and so the first
      -- step starts at a place below that one.
      rcases ih (Merkle.parents leaves) (sha3 (step.string x)) hlen hfold hrest with
        ⟨j, hj, hup, halike⟩
      rcases Merkle.exists_place_below hsep leaves hpairs step x hstep j hj hup with
        ⟨i, h, hij, hx, hsib, hside⟩
      -- The place of the step is one of the two below, and the rest goes on from the place above.
      refine ⟨i, h, hx, ?_⟩
      subst hij
      rw [ofLevel_of_one_lt h hlong]
      exact (alike_cons leaves i step _ rest _).mpr ⟨hsib, hside, halike⟩

theorem apply_of_alike (path : Path) (leaves : List Bytes32) (i : Nat) (h : i < leaves.length)
    (hlen : path.length = Nat.clog 2 leaves.length)
    (halike : Path.Alike leaves i path (ofLevel leaves i h)) :
    Merkle.fold leaves = some (path.apply leaves[i]) := by
  induction path generalizing leaves i with
  -- No step is left in the path of the place either.
  | nil =>
      have hshort : ofLevel leaves i h = [] := by
        apply List.eq_nil_of_length_eq_zero
        rw [length_ofLevel, ← hlen, List.length_nil]
      rw [apply_ofLevel leaves i h, hshort]
  | cons step rest ih =>
      have hlong : 1 < leaves.length := by
        apply Merkle.one_lt_length_of_clog_pos
        rw [← hlen, List.length_cons]
        exact Nat.succ_pos _
      rw [ofLevel_of_one_lt h hlong] at halike
      rcases (alike_cons leaves i step _ rest _).mp halike with ⟨hsib, hside, hrest⟩
      -- The step leads to the hash that stands above the place.
      have hup := Merkle.sha3_string_of_alike leaves i h step hsib hside
      rw [List.getElem?_eq_getElem (Merkle.half_lt_length_parents h), Option.some.injEq] at hup
      rw [Merkle.clog_length_parents hlong, List.length_cons, Nat.add_right_cancel_iff] at hlen
      rw [Merkle.fold_eq_fold_parents hlong, apply_step, hup]
      exact ih _ _ _ hlen hrest

end Path

/-- Of the paths with one step for each round, those are accepted that lead from a leaf along its
    own proof, and no others. Only the side of a sibling that is the hash itself is free. -/
theorem LeafList.verifies_full_path_iff (leaves : LeafList) (x : Bytes32) (path : Path)
    (hlen : path.length = Nat.clog 2 leaves.length)
    (hsep : Separated (Merkle.foldStrings leaves.toList ++ path.strings x)) :
    path.verifies x leaves.root = true ↔
      ∃ i proof, leaves.toList[i]? = some x ∧ leaves.prove? i = some proof ∧
        Path.Alike leaves.toList i path proof := by
  rw [LeafList.verifies_root_iff]
  -- An accepted path is read from the root down, and a path of a place is followed from the leaf
  -- up; the second direction needs nothing of the hash.
  constructor
  · intro hfold
    rcases Path.exists_place path leaves.toList x hlen hfold hsep with ⟨i, h, hx, halike⟩
    refine ⟨i, Path.ofLevel leaves.toList i h, ?_, LeafList.prove?_eq_some h, halike⟩
    rw [List.getElem?_eq_getElem h, ← hx]
  · intro hplace
    rcases hplace with ⟨i, proof, hx, hproof, halike⟩
    rcases List.getElem?_eq_some_iff.mp hx with ⟨h, rfl⟩
    rw [LeafList.prove?_eq_some h, Option.some.injEq] at hproof
    subst hproof
    exact Path.apply_of_alike path leaves.toList i h hlen halike

theorem LeafList.root_three : three.root =
    .hash (hashPair (hashPair (Bytes32.fill 1) (Bytes32.fill 2))
      (hashPair (Bytes32.fill 3) (Bytes32.fill 3))) := by
  apply root_eq_of_fold
  rw [Merkle.fold_eq_fold_parents (by decide), Merkle.fold_eq_fold_parents (by decide)]
  show Merkle.fold [_] = _
  rw [Merkle.fold]

/-- The proof of the last of three leaves with the side of its first sibling changed. -/
def Path.changedSide : Path :=
  [⟨Bytes32.fill 3, true⟩, ⟨hashPair (Bytes32.fill 1) (Bytes32.fill 2), true⟩]

/-- The side may be changed, as the leaf is paired with itself. -/
theorem LeafList.verifies_changed_side :
    Path.changedSide.verifies (Bytes32.fill 3) three.root = true ∧
      ∃ i proof, three.toList[i]? = some (Bytes32.fill 3) ∧ three.prove? i = some proof ∧
        Path.Alike three.toList i Path.changedSide proof := by
  have hv : Path.changedSide.verifies (Bytes32.fill 3) three.root = true := by
    simp only [root_three, Path.verifies, Path.changedSide, Path.apply, List.foldl_cons,
      List.foldl_nil, if_true, decide_true]
  have hsep : Separated (Merkle.foldStrings three.toList ++
      Path.strings Path.changedSide (Bytes32.fill 3)) := by
    decide +kernel
  exact ⟨hv, (verifies_full_path_iff three (Bytes32.fill 3) Path.changedSide (by decide +kernel)
    hsep).mp hv⟩

end CoinCommit
