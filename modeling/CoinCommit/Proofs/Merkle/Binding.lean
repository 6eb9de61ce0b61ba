import CoinCommit.Proofs.Merkle.Strings

/-!
# Folds of Equal Length

Two levels of equal length are paired in the same way, so if one round makes
them equal, they were equal: each hash of the next level can be undone, as
long as the strings of the two rounds do not collide. Carried through all
rounds, lists of equal length that fold into the same hash are the same list.

The strings may be any list that holds those of both folds. A statement about
two snapshots has more of them than the two folds alone, and the levels of a
fold have fewer; a superset serves all of them without a new hypothesis.

## Theorems

* `Merkle.parents_injective`: Levels of equal length with the same next level.
* `Merkle.fold_injective`: Lists of equal length with the same fold.
-/

namespace CoinCommit

namespace Merkle

theorem mem_pairStrings_cons (a b : Bytes32) (rest : List Bytes32) :
    pairString a b ∈ pairStrings (a :: b :: rest) := List.mem_cons_self

theorem pairStrings_rest_subset (a b : Bytes32) (rest : List Bytes32) :
    pairStrings rest ⊆ pairStrings (a :: b :: rest) := List.subset_cons_self _ _

/-- Levels of equal length that have the same next level are equal. -/
theorem parents_injective {strings : List Bytes} (hsep : Separated strings) (xs ys : List Bytes32)
    (hlen : xs.length = ys.length) (hxs : pairStrings xs ⊆ strings)
    (hys : pairStrings ys ⊆ strings) (h : parents xs = parents ys) : xs = ys := by
  fun_induction parents xs generalizing ys with
  | case1 a b rest ih =>
      rcases ys with _ | ⟨c, _ | ⟨d, rest'⟩⟩
      · exact absurd hlen (Nat.succ_ne_zero _)
      · exact absurd (Nat.succ.inj hlen) (Nat.succ_ne_zero _)
      simp only [parents, List.cons.injEq] at h
      simp only [List.length_cons, Nat.add_right_cancel_iff] at hlen
      -- The first pairs have one hash, so they are one pair.
      rcases hsep.hashPair_injective (hxs (mem_pairStrings_cons a b rest))
        (hys (mem_pairStrings_cons c d rest')) h.1 with ⟨rfl, rfl⟩
      have hrest := ih rest' hlen
        (List.Subset.trans (pairStrings_rest_subset a b rest) hxs)
        (List.Subset.trans (pairStrings_rest_subset a b rest') hys) h.2
      rw [hrest]
  -- A hash alone is paired with itself, on both sides.
  | case2 a =>
      rcases List.length_eq_one_iff.mp hlen.symm with ⟨c, rfl⟩
      simp only [parents, List.cons.injEq, and_true] at h
      rcases hsep.hashPair_injective (hxs List.mem_cons_self) (hys List.mem_cons_self) h with
        ⟨rfl, _⟩
      rfl
  | case3 => exact (List.eq_nil_of_length_eq_zero hlen.symm).symm

/-- Lists of equal length that fold into the same hash are equal. -/
theorem fold_injective {strings : List Bytes} (hsep : Separated strings) (xs ys : List Bytes32)
    (hlen : xs.length = ys.length) (hxs : foldStrings xs ⊆ strings)
    (hys : foldStrings ys ⊆ strings) (h : fold xs = fold ys) : xs = ys := by
  fun_induction fold xs generalizing ys with
  | case1 => exact (List.eq_nil_of_length_eq_zero hlen.symm).symm
  | case2 a =>
      rcases List.length_eq_one_iff.mp hlen.symm with ⟨c, rfl⟩
      rw [fold, Option.some.injEq] at h
      rw [h]
  | case3 a b rest ih =>
      have hlong : 1 < (a :: b :: rest).length := by
        simp only [List.length_cons]
        omega
      have hlong' : 1 < ys.length := hlen ▸ hlong
      -- The next levels are equal by induction, and so are the levels themselves.
      rw [fold_eq_fold_parents hlong'] at h
      have hup := ih (parents ys) (by rw [length_parents, length_parents, hlen])
        (List.Subset.trans (foldStrings_parents_subset hlong) hxs)
        (List.Subset.trans (foldStrings_parents_subset hlong') hys) h
      exact parents_injective hsep _ _ hlen (List.Subset.trans (pairStrings_subset hlong) hxs)
        (List.Subset.trans (pairStrings_subset hlong') hys) hup

end Merkle

end CoinCommit
