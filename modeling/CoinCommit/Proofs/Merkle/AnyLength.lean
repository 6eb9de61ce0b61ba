import CoinCommit.Proofs.Merkle.Soundness

/-!
# Paths of Any Length

The check of a path does not know how many leaves there are, so it accepts
paths that are shorter or longer than the fold has rounds. What such a path
proves depends on what is hashed at its ends.

A short path ends at the root from an inner hash, which is the hash of 64
bytes: it proves nothing about a leaf that is the hash of a string of another
length. A long path goes through a leaf on its way, and it enters that leaf by
hashing 64 bytes. If leaves are hashes of strings of their own, one of those
strings then is these very 64 bytes.

## Theorems

* `Path.exists_pair_of_short`: A short path starts at an inner hash.
* `Path.exists_step_of_long`: A long path enters a leaf by one of its steps.
* `Path.start_of_verifies`: Where an accepted path of any length starts.
-/

namespace CoinCommit

namespace Path

/-- A path with fewer steps than the fold has rounds starts at an inner hash. -/
theorem exists_pair_of_short (path : Path) (leaves : List Bytes32) (x : Bytes32)
    (hlen : path.length < Nat.clog 2 leaves.length)
    (hfold : Merkle.fold leaves = some (path.apply x))
    (hsep : Separated (Merkle.foldStrings leaves ++ strings path x)) :
    ∃ a b, x = hashPair a b ∧ pairString a b ∈ Merkle.foldStrings leaves := by
  -- The path is a full one for the level that many rounds below the root, which is no leaf level.
  rcases Nat.exists_eq_add_of_lt hlen with ⟨k, hk⟩
  have hheight := Merkle.clog_length_level leaves (k + 1) (by omega)
  have hbelow := Merkle.clog_length_level leaves k (by omega)
  have hlong : 1 < (Merkle.level leaves k).length := Merkle.one_lt_length_of_clog_pos (by omega)
  rw [← Merkle.fold_level leaves (k + 1) (by omega)] at hfold
  have hsub : Separated (Merkle.foldStrings (Merkle.level leaves (k + 1)) ++ strings path x) :=
    hsep.of_subset (List.append_subset.mpr
      ⟨List.Subset.trans (Merkle.foldStrings_level_subset leaves (k + 1) (by omega))
        (List.subset_append_left _ _), List.subset_append_right _ _⟩)
  -- The path starts at a place of that level, and so at the hash of a pair below it.
  rcases exists_place path (Merkle.level leaves (k + 1)) x (by omega) hfold hsub with
    ⟨i, h, hx, _⟩
  have hmem : x ∈ Merkle.parents (Merkle.level leaves k) := by
    rw [hx]
    exact List.getElem_mem h
  rcases Merkle.exists_pair_of_mem_parents hmem with ⟨a, b, hab, hstring⟩
  exact ⟨a, b, hab, Merkle.foldStrings_level_subset leaves k (by omega)
    (Merkle.pairStrings_subset hlong hstring)⟩

/-- A path with more steps than the fold has rounds reaches a leaf by a step, with as many steps
    left as there are rounds. -/
theorem exists_step_of_long (path : Path) (leaves : List Bytes32) (x : Bytes32)
    (hlen : Nat.clog 2 leaves.length < path.length)
    (hfold : Merkle.fold leaves = some (path.apply x))
    (hsep : Separated (Merkle.foldStrings leaves ++ strings path x)) :
    ∃ lower step upper, path = lower ++ step :: upper ∧
      upper.length = Nat.clog 2 leaves.length ∧ step.string (apply lower x) ∈ strings path x ∧
        sha3 (step.string (apply lower x)) ∈ leaves := by
  rcases Nat.exists_eq_add_of_lt hlen with ⟨k, hk⟩
  have hcut : k < path.length := by omega
  -- The step that enters the leaves is cut out of the path.
  have hsplit : path = path.take k ++ path[k] :: path.drop (k + 1) := by
    rw [← List.drop_eq_getElem_cons hcut, List.take_append_drop]
  have hupper : (path.drop (k + 1)).length = Nat.clog 2 leaves.length := by
    rw [List.length_drop]
    omega
  generalize path.take k = lower at hsplit
  generalize path[k] = step at hsplit
  generalize path.drop (k + 1) = upper at hsplit hupper
  subst hsplit
  rw [apply_append, apply_step] at hfold
  rw [strings_append, strings] at hsep ⊢
  have hsub : Separated (Merkle.foldStrings leaves ++
      strings upper (sha3 (step.string (apply lower x)))) :=
    hsep.of_subset (List.append_subset.mpr ⟨List.subset_append_left _ _,
      List.Subset.trans (List.subset_cons_self _ _) (List.Subset.trans
        (List.subset_append_right _ _) (List.subset_append_right _ _))⟩)
  -- The steps behind it are a full path of their own, from a leaf.
  rcases exists_place upper leaves _ hupper hfold hsub with ⟨i, h, hx, _⟩
  refine ⟨lower, step, upper, rfl, hupper, ?_, ?_⟩
  · exact List.mem_append_right _ List.mem_cons_self
  · rw [hx]
    exact List.getElem_mem h

/-- Where an accepted path starts, if leaves are the hashes of given strings and the start is the
    hash of a string that is no pair of hashes. Either it is a full path and its start is one of
    those strings, or it goes on below a leaf, whose string then is what its step hashes. -/
theorem start_of_verifies (path : Path) (leaves : List Bytes32) (origins : List Bytes)
    (start : Bytes) (horigins : ∀ leaf ∈ leaves, ∃ o ∈ origins, leaf = sha3 o)
    (hstart : start.length ≠ 64) (hfold : Merkle.fold leaves = some (path.apply (sha3 start)))
    (hsep : Separated (origins ++ Merkle.foldStrings leaves ++ start ::
      strings path (sha3 start))) :
    (start ∈ origins ∧ path.length = Nat.clog 2 leaves.length) ∨
      ∃ lower step upper, path = lower ++ step :: upper ∧
        upper.length = Nat.clog 2 leaves.length ∧
          step.string (apply lower (sha3 start)) ∈ origins := by
  -- The strings of the fold and of the path are among those that do not collide.
  have hsub : Separated (Merkle.foldStrings leaves ++ strings path (sha3 start)) := by
    refine hsep.of_subset (List.append_subset.mpr ⟨?_, ?_⟩)
    · exact List.Subset.trans (List.subset_append_right _ _) (List.subset_append_left _ _)
    · exact List.Subset.trans (List.subset_cons_self _ _) (List.subset_append_right _ _)
  have hmem : start ∈ origins ++ Merkle.foldStrings leaves ++ start ::
      strings path (sha3 start) := List.mem_append_right _ List.mem_cons_self
  have horigin : ∀ o ∈ origins, o ∈ origins ++ Merkle.foldStrings leaves ++ start ::
      strings path (sha3 start) :=
    fun o ho => List.mem_append_left _ (List.mem_append_left _ ho)
  rcases Nat.lt_trichotomy path.length (Nat.clog 2 leaves.length) with hlt | heq | hgt
  · -- An inner hash is the hash of 64 bytes, which the start is not.
    rcases exists_pair_of_short path leaves _ hlt hfold hsub with ⟨a, b, hab, hpair⟩
    have hstring := hsep _ hmem _
      (List.mem_append_left _ (List.mem_append_right _ hpair)) hab
    rw [hstring, length_pairString] at hstart
    exact absurd rfl hstart
  · -- The start of a full path is a leaf.
    rcases exists_place path leaves _ heq hfold hsub with ⟨i, h, hx, _⟩
    rcases horigins _ (List.getElem_mem h) with ⟨o, ho, hleaf⟩
    have hstring := hsep _ hmem _ (horigin o ho) (hx.trans hleaf)
    exact Or.inl ⟨hstring ▸ ho, heq⟩
  · -- A long path hashes the string of the leaf that it enters.
    rcases exists_step_of_long path leaves _ hgt hfold hsub with
      ⟨lower, step, upper, hsplit, hupper, hstep, hleaf⟩
    rcases horigins _ hleaf with ⟨o, ho, hhash⟩
    have hstring := hsep _ (List.mem_append_right _ (List.mem_cons_of_mem _ hstep)) _
      (horigin o ho) hhash
    exact Or.inr ⟨lower, step, upper, hsplit, hupper, hstring ▸ ho⟩

end Path

end CoinCommit
