import CoinCommit.Merkle.Path
import CoinCommit.Proofs.Hash.Separated
import CoinCommit.Proofs.Merkle.Levels

/-!
# Every Leaf Has a Proof

The fold and the walk that collects siblings are two recursions. They stay in
step because the walk halves its place whenever the fold halves its level, and
`Path.ofLevel` carries the bound that keeps the place inside. What follows is
that a proof exists for exactly the places of a list, is as long as the list is
high, and leads to the list's root.

## Main definitions

* `LeafList.three`: A list with a self-paired leaf.

## Theorems

* `Path.length_ofLevel`: A proof has one step for each round of the fold.
* `LeafList.verifies_root_iff`: Which paths are accepted under the root of a list.
* `LeafList.proves_every_place`: Places within the list, and only those, have a
  proof, and it is accepted.
-/

namespace CoinCommit

theorem Path.length_ofLevel (level : List Bytes32) (i : Nat) (h : i < level.length) :
    (Path.ofLevel level i h).length = Nat.clog 2 level.length := by
  fun_induction Path.ofLevel level i h with
  | case1 level i h hle => rw [Nat.clog_of_right_le_one hle, List.length_nil]
  | case2 level i h hgt ih =>
      rw [List.length_cons, ih, ← Merkle.clog_length_parents (by omega)]

namespace LeafList

/-- A path is accepted under the root of a list if it leads to what the leaves fold into. -/
theorem verifies_root_iff {leaves : LeafList} {path : Path} {x : Bytes32} :
    path.verifies x leaves.root = true ↔ Merkle.fold leaves.toList = some (path.apply x) := by
  rcases hfold : Merkle.fold leaves.toList with _ | root
  · simp only [LeafList.root, hfold, Path.verifies, Bool.false_eq_true, reduceCtorEq]
  · simp only [LeafList.root, hfold, Path.verifies, decide_eq_true_eq, Option.some.injEq]
    exact eq_comm

theorem prove?_eq_some {leaves : LeafList} {i : Nat} (h : i < leaves.toList.length) :
    leaves.prove? i = some (Path.ofLevel leaves.toList i h) := dif_pos h

/-- A place has a proof exactly if it lies within the list. The proof has as
    many steps as the list has rounds, leads from the leaf at the place to the
    root, and so is accepted. -/
theorem proves_every_place (leaves : LeafList) (i : Nat) :
    (leaves.prove? i = none ↔ leaves.length ≤ i) ∧
      ∀ leaf, leaves.toList[i]? = some leaf →
        ∃ path, leaves.prove? i = some path ∧ path.length = Nat.clog 2 leaves.length ∧
          leaves.root = .hash (path.apply leaf) ∧ path.verifies leaf leaves.root = true := by
  constructor
  · -- The walk itself never fails, so a proof is missing only where the place is checked.
    by_cases h : i < leaves.toList.length
    · rw [prove?_eq_some h]
      simp only [reduceCtorEq, false_iff, LeafList.length]
      omega
    · have hnone : leaves.prove? i = none := dif_neg h
      rw [hnone]
      simp only [true_iff, LeafList.length]
      omega
  · intro leaf hleaf
    rcases List.getElem?_eq_some_iff.mp hleaf with ⟨h, rfl⟩
    have hfold := Path.apply_ofLevel leaves.toList i h
    exact ⟨Path.ofLevel leaves.toList i h, prove?_eq_some h, Path.length_ofLevel _ i h,
      root_eq_of_fold hfold, verifies_root_iff.mpr hfold⟩

/-- Three leaves, of which the last is paired with itself. -/
def three : LeafList := ⟨[Bytes32.fill 1, Bytes32.fill 2, Bytes32.fill 3], by decide⟩

theorem proves_last_of_three :
    three.toList[2]? = some (Bytes32.fill 3) ∧
      ∃ path, three.prove? 2 = some path ∧ path.length = Nat.clog 2 three.length ∧
        three.root = .hash (path.apply (Bytes32.fill 3)) ∧
          path.verifies (Bytes32.fill 3) three.root = true :=
  ⟨rfl, (proves_every_place three 2).2 (Bytes32.fill 3) rfl⟩

end LeafList

end CoinCommit
