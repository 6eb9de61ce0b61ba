import CoinCommit.Merkle.Path
import CoinCommit.Proofs.Hash.Separated
import CoinCommit.Proofs.Merkle.Levels

/-!
# The Strings That Are Hashed

Folding leaves and checking a path hash strings of 64 bytes, and a statement
about commitments is conditional on these strings not colliding. This module
lists them: those of one round, those of a whole fold, and those of a path from
a given start.

The lists are cut the way the proofs run. A fold's strings are those of its
first round and those of the fold of the next level, and a path's are that of
its first step and those of the rest from where the step leads.

## Main definitions

* `Merkle.pairStrings`: The strings of one round.
* `Merkle.foldStrings`: The strings of all rounds.
* `PathStep.string`: The string of a step.
* `Path.strings`: The strings of all steps.

## Theorems

* `foldStrings_eq_append`: The first round and the fold of the next level.
* `foldStrings_level_subset`: A later level hashes no string of its own.
* `mem_pairStrings`: What is paired at a place of a level.
* `exists_pair_of_mem_parents`: Every hash of a next level has such a string.
-/

namespace CoinCommit

namespace Merkle

/-- The strings that are hashed when a level becomes the next one. -/
def pairStrings : List Bytes32 → List Bytes
  | a :: b :: rest => pairString a b :: pairStrings rest
  | [a] => [pairString a a]
  | [] => []

/-- The strings that are hashed when leaves are folded, round by round. -/
def foldStrings (leaves : List Bytes32) : List Bytes :=
  (List.range (Nat.clog 2 leaves.length)).flatMap fun k => pairStrings (level leaves k)

theorem foldStrings_eq_append {leaves : List Bytes32} (h : 1 < leaves.length) :
    foldStrings leaves = pairStrings leaves ++ foldStrings (parents leaves) := by
  -- The levels over the next level are those over the leaves, but for the lowest.
  have hlevels : (fun k => pairStrings (level (parents leaves) k)) =
      fun k => pairStrings (level leaves (k + 1)) := by
    funext k
    rw [level_parents]
  rw [foldStrings, foldStrings, clog_length_parents h, List.range_succ_eq_map, List.flatMap_cons,
    List.flatMap_map, hlevels]
  rfl

theorem pairStrings_subset {leaves : List Bytes32} (h : 1 < leaves.length) :
    pairStrings leaves ⊆ foldStrings leaves := by
  rw [foldStrings_eq_append h]
  exact List.subset_append_left _ _

theorem foldStrings_parents_subset {leaves : List Bytes32} (h : 1 < leaves.length) :
    foldStrings (parents leaves) ⊆ foldStrings leaves := by
  rw [foldStrings_eq_append h]
  exact List.subset_append_right _ _

/-- The fold of a later level hashes no string of its own. -/
theorem foldStrings_level_subset (leaves : List Bytes32) (k : Nat)
    (hk : k ≤ Nat.clog 2 leaves.length) : foldStrings (level leaves k) ⊆ foldStrings leaves := by
  induction k with
  | zero => exact List.Subset.refl _
  | succ k ih =>
      -- There is a round left at level k, and its strings are those of the rounds above.
      have hheight := clog_length_level leaves k (by omega)
      have hlong : 1 < (level leaves k).length := one_lt_length_of_clog_pos (by omega)
      exact List.Subset.trans (foldStrings_parents_subset hlong) (ih (by omega))

/-- At each place of the next level stands the hash of a string of the round: the hash at twice
    the place, and behind it its right neighbour or, where there is none, itself again. -/
theorem mem_pairStrings (leaves : List Bytes32) (j : Nat) (h : 2 * j < leaves.length) :
    pairString leaves[2 * j]
      (if hr : 2 * j + 1 < leaves.length then leaves[2 * j + 1] else leaves[2 * j])
      ∈ pairStrings leaves := by
  fun_induction pairStrings leaves generalizing j with
  | case1 a b rest ih =>
      cases j with
      | zero =>
          have hr : 2 * 0 + 1 < (a :: b :: rest).length := by
            simp only [List.length_cons]
            omega
          rw [dif_pos hr]
          exact List.mem_cons_self
      | succ j =>
          -- Behind the first pair, places count from the rest of the level.
          have hj : 2 * j < rest.length := by
            simp only [List.length_cons] at h
            omega
          have h2 : 2 * (j + 1) = 2 * j + 1 + 1 := by omega
          have hmem := List.mem_cons_of_mem (pairString a b) (ih j hj)
          simp only [h2, List.getElem_cons_succ, List.length_cons, Nat.add_lt_add_iff_right]
          exact hmem
  | case2 a =>
      -- A last hash without a neighbour is paired with itself.
      have hj : j = 0 := by
        rw [List.length_singleton] at h
        omega
      subst hj
      exact List.mem_cons_self
  | case3 => exact absurd h (Nat.not_lt_zero (2 * j))

/-- Every hash of a next level is the hash of a string of the round. -/
theorem exists_pair_of_mem_parents {leaves : List Bytes32} {x : Bytes32} (h : x ∈ parents leaves) :
    ∃ a b, x = hashPair a b ∧ pairString a b ∈ pairStrings leaves := by
  rcases List.mem_iff_getElem.mp h with ⟨j, hj, rfl⟩
  have h2 : 2 * j < leaves.length := by
    rw [length_parents] at hj
    omega
  have hget := getElem?_parents leaves j h2
  rw [List.getElem?_eq_getElem hj, Option.some.injEq] at hget
  exact ⟨_, _, hget, mem_pairStrings leaves j h2⟩

end Merkle

/-- The string that is hashed in a step from a hash. -/
def PathStep.string (step : PathStep) (current : Bytes32) : Bytes :=
  if step.siblingIsLeft then pairString step.sibling current else pairString current step.sibling

theorem PathStep.length_string (step : PathStep) (current : Bytes32) :
    (step.string current).length = 64 := by
  unfold PathStep.string
  split
  · exact length_pairString _ _
  · exact length_pairString _ _

namespace Path

/-- The strings that are hashed along a path from a leaf. -/
def strings : Path → Bytes32 → List Bytes
  | [], _ => []
  | step :: rest, current => step.string current :: strings rest (sha3 (step.string current))

theorem apply_singleton (step : PathStep) (current : Bytes32) :
    apply [step] current = sha3 (step.string current) := by
  simp only [apply, List.foldl_cons, List.foldl_nil, PathStep.string]
  split
  · rfl
  · rfl

theorem apply_step (step : PathStep) (rest : Path) (current : Bytes32) :
    apply (step :: rest) current = apply rest (sha3 (step.string current)) := by
  rw [apply_cons, apply_singleton]

theorem apply_append (p q : Path) (current : Bytes32) :
    apply (p ++ q) current = apply q (apply p current) := by
  rw [apply, List.foldl_append]
  rfl

theorem strings_append (p q : Path) (current : Bytes32) :
    strings (p ++ q) current = strings p current ++ strings q (apply p current) := by
  induction p generalizing current with
  | nil => rfl
  | cons step rest ih => rw [List.cons_append, strings, ih, strings, apply_step, List.cons_append]

end Path

end CoinCommit
