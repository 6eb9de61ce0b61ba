import CoinCommit.Proofs.Merkle.Removal

/-!
# The Count and the Root

A root is published together with the number of leaves under it. The two pin
down the whole list: another list of that length with that root differs from it
only if two different strings of 64 bytes that are hashed for the two lists have
the same digest. It is one argument for all lengths, as lists of equal length
are paired alike in every round, whatever tails are paired with themselves.

The root alone pins down less. A list of odd length can have its last leaf
twice without a trace, as that is what the pairing of the leaf with itself
amounts to; so every such list shares its root with a longer one.

## Theorems

* `Merkle.length_of_mem_foldStrings`: A fold hashes strings of 64 bytes.
* `Separated.or_collision`: Strings are separated unless two of them collide.
* `LeafList.eq_or_collision_of_root`: The count and the root bind the leaves.
* `LeafList.exists_longer_of_odd`: The root alone does not.
-/

namespace CoinCommit

/-- Strings are separated unless two different ones among them have the same digest. -/
theorem Separated.or_collision (strings : List Bytes) :
    Separated strings ∨ ∃ s ∈ strings, ∃ t ∈ strings, s ≠ t ∧ sha3 s = sha3 t := by
  by_cases h : Separated strings
  · exact Or.inl h
  · -- Not separated means that two strings were found.
    simp only [Separated, not_forall] at h
    rcases h with ⟨s, hs, t, ht, hhash, hne⟩
    exact Or.inr ⟨s, hs, t, ht, hne, hhash⟩

namespace Merkle

theorem length_of_mem_pairStrings {leaves : List Bytes32} {s : Bytes}
    (h : s ∈ pairStrings leaves) : s.length = 64 := by
  fun_induction pairStrings leaves with
  | case1 a b rest ih =>
      rcases List.mem_cons.mp h with rfl | h
      · exact length_pairString a b
      · exact ih h
  | case2 a =>
      rw [List.mem_singleton.mp h]
      exact length_pairString a a
  | case3 => exact absurd h List.not_mem_nil

theorem length_of_mem_foldStrings {leaves : List Bytes32} {s : Bytes}
    (h : s ∈ foldStrings leaves) : s.length = 64 := by
  rcases List.mem_flatMap.mp h with ⟨_, _, hs⟩
  exact length_of_mem_pairStrings hs

end Merkle

namespace LeafList

/-- Two lists with as many leaves and the same root are equal, unless a string of 64 bytes that is
    hashed in one of the folds has the digest of another one that is hashed in the folds. -/
theorem eq_or_collision_of_root (a b : LeafList) (hlen : a.length = b.length)
    (hroot : a.root = b.root) :
    a.toList = b.toList ∨
      ∃ s ∈ Merkle.foldStrings a.toList ++ Merkle.foldStrings b.toList,
        ∃ t ∈ Merkle.foldStrings a.toList ++ Merkle.foldStrings b.toList,
          s.length = 64 ∧ t.length = 64 ∧ s ≠ t ∧ sha3 s = sha3 t := by
  -- All that is hashed in a fold are pairs of hashes.
  have hsize : ∀ s ∈ Merkle.foldStrings a.toList ++ Merkle.foldStrings b.toList,
      s.length = 64 := by
    intro s hs
    rcases List.mem_append.mp hs with hs | hs
    · exact Merkle.length_of_mem_foldStrings hs
    · exact Merkle.length_of_mem_foldStrings hs
  rcases Separated.or_collision (Merkle.foldStrings a.toList ++ Merkle.foldStrings b.toList) with
    hsep | ⟨s, hs, t, ht, hne, hhash⟩
  · exact Or.inl (Merkle.fold_injective hsep _ _ hlen (List.subset_append_left _ _)
      (List.subset_append_right _ _) ((root_eq_iff a b).mp hroot))
  · exact Or.inr ⟨s, hs, t, ht, hsize s hs, hsize t ht, hne, hhash⟩

/-- Five leaves as they were found, in two orders. -/
def found : List Bytes32 × List Bytes32 :=
  ([Bytes32.fill 3, Bytes32.fill 1, Bytes32.fill 5, Bytes32.fill 2, Bytes32.fill 4],
    [Bytes32.fill 5, Bytes32.fill 4, Bytes32.fill 3, Bytes32.fill 2, Bytes32.fill 1])

theorem eq_of_root_of_found :
    (ofList found.1).length = (ofList found.2).length ∧
      (ofList found.1).root = (ofList found.2).root ∧
        ((ofList found.1).toList = (ofList found.2).toList ∨
          ∃ s ∈ Merkle.foldStrings (ofList found.1).toList ++
              Merkle.foldStrings (ofList found.2).toList,
            ∃ t ∈ Merkle.foldStrings (ofList found.1).toList ++
                Merkle.foldStrings (ofList found.2).toList,
              s.length = 64 ∧ t.length = 64 ∧ s ≠ t ∧ sha3 s = sha3 t) := by
  have hperm : found.1.Perm found.2 := by decide
  have hsame : ofList found.1 = ofList found.2 := ofList_eq_of_perm hperm
  have hlen : (ofList found.1).length = (ofList found.2).length := by rw [hsame]
  have hroot : (ofList found.1).root = (ofList found.2).root := by rw [hsame]
  exact ⟨hlen, hroot, eq_or_collision_of_root _ _ hlen hroot⟩

/-- A list of odd length has the root of the list that has its last leaf twice, unless it has no
    other leaves. -/
theorem exists_longer_of_odd (a : LeafList) (hodd : a.length % 2 = 1) (hlong : 1 < a.length) :
    ∃ b : LeafList, b.length = a.length + 1 ∧ b.root = a.root := by
  rw [LeafList.length] at hodd hlong
  -- The last leaf is written once more behind itself.
  rcases List.eq_nil_or_concat a.toList with hnil | ⟨front, x, hlast⟩
  · rw [hnil] at hlong
    exact absurd hlong (Nat.not_lt_zero 1)
  rw [List.concat_eq_append] at hlast
  have hsorted := a.sorted
  rw [hlast, List.length_append, List.length_singleton] at hodd hlong
  rw [hlast, List.pairwise_append] at hsorted
  -- The copy is not below any leaf, so the longer list is sorted too.
  have htwice : (front ++ [x, x]).Pairwise (· ≤ ·) := by
    refine List.pairwise_append.mpr ⟨hsorted.1, List.pairwise_pair.mpr (List.le_refl _), ?_⟩
    intro y hy z hz
    have hzx : z = x := by simpa only [List.mem_cons, List.not_mem_nil, or_false, or_self] using hz
    rw [hzx]
    exact hsorted.2.2 y hy x List.mem_cons_self
  refine ⟨⟨front ++ [x, x], htwice⟩, ?_, ?_⟩
  · rw [LeafList.length, LeafList.length, hlast, List.length_append, List.length_append]
    rfl
  · -- The run is the last leaf and its copy, behind an even number of leaves.
    have hperm := List.perm_append_singleton x (front ++ [x])
    rw [List.append_assoc] at hperm
    refine root_eq_of_repeatsTail _ a x (hlast ▸ hperm) ⟨0, front, rfl, ?_, ?_⟩
    · apply List.ne_nil_of_length_pos
      omega
    · omega

end LeafList

end CoinCommit
