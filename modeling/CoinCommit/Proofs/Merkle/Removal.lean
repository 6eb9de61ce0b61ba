import CoinCommit.Proofs.Merkle.Repetition

/-!
# The Root After a Leaf Is Removed

One leaf fewer gives another root, apart from two shapes of the list. In the
first the leaf stands at the end of a run that spells out a self-pairing, and
the root stays the same however good the hash is. In the second the list that
is left has a power of two of leaves, and the first of them is the hash of a
pair to which it belongs itself. No one can make such a pair, but it is no
collision, so it has to be named.

That the pair holds its own hash comes from the order of the leaves: the first
of the leaves that are left is the first or the second one of all.

## Main definitions

* `HoldsItself`: A pair of hashes of which one is the hash of the pair.

## Theorems

* `LeafList.first_of_removed`: Where the first of the remaining leaves stood.
* `LeafList.root_eq_of_repeatsTail`: A leaf that is not missed.
* `LeafList.repeatsTail_of_root_eq`: There is no other such leaf.
-/

namespace CoinCommit

/-- A pair of hashes of which one is the hash of the pair. -/
def HoldsItself (y z : Bytes32) : Prop := hashPair y z = y ∨ hashPair y z = z

namespace LeafList

theorem root_eq_iff (a b : LeafList) :
    a.root = b.root ↔ Merkle.fold a.toList = Merkle.fold b.toList := by
  simp only [LeafList.root]
  rcases Merkle.fold a.toList with _ | x <;> rcases Merkle.fold b.toList with _ | y <;>
    simp only [reduceCtorEq, Root.hash.injEq, Option.some.injEq]

/-- A list with one more leaf in front, which is below all others. -/
def consLeast (x : Bytes32) (leaves : LeafList) (h : ∀ y ∈ leaves.toList, x ≤ y) : LeafList :=
  ⟨x :: leaves.toList, List.pairwise_cons.mpr ⟨h, leaves.sorted⟩⟩

theorem toList_consLeast {x : Bytes32} {leaves : LeafList} (h : ∀ y ∈ leaves.toList, x ≤ y) :
    (consLeast x leaves h).toList = x :: leaves.toList := rfl

/-- The first of the leaves that remain stood first, or second behind the one removed. -/
theorem first_of_removed (a b : LeafList) (x first : Bytes32) (rest : List Bytes32)
    (hperm : a.toList.Perm (x :: b.toList)) (hb : b.toList = first :: rest) :
    a.toList = x :: first :: rest ∨ ∃ others, a.toList = first :: others := by
  have hsorted := b.sorted
  rw [hb, List.pairwise_cons] at hsorted
  rcases Bytes32.le_total x first with hle | hle
  · -- The leaf removed is below all others, so it stood first.
    have hleast : ∀ y ∈ b.toList, x ≤ y := by
      intro y hy
      rw [hb] at hy
      rcases List.mem_cons.mp hy with rfl | hy
      · exact hle
      · exact Bytes32.le_trans hle (hsorted.1 y hy)
    have ha : a = consLeast x b hleast := eq_of_perm hperm
    exact Or.inl (by rw [ha, toList_consLeast, hb])
  · -- It is not below the first of the others, which was first before as well.
    have hleast : ∀ y ∈ (ofList (x :: rest)).toList, first ≤ y := by
      intro y hy
      rcases List.mem_cons.mp ((perm_ofList (x :: rest)).mem_iff.mp hy) with rfl | hy
      · exact hle
      · exact hsorted.1 y hy
    rw [hb] at hperm
    have hswap : a.toList.Perm (first :: (ofList (x :: rest)).toList) :=
      hperm.trans ((List.Perm.swap first x rest).trans ((perm_ofList (x :: rest)).symm.cons first))
    have ha : a = consLeast first (ofList (x :: rest)) hleast := eq_of_perm hswap
    exact Or.inr ⟨_, by rw [ha, toList_consLeast]⟩

/-- A leaf at the end of a run that spells out a self-pairing is not missed by the root. -/
theorem root_eq_of_repeatsTail (a b : LeafList) (x : Bytes32)
    (hperm : a.toList.Perm (x :: b.toList)) (h : Merkle.RepeatsTail a.toList x) :
    a.root = b.root := by
  rcases h with ⟨t, front, hrun, hne, hdvd⟩
  rw [List.replicate_succ', ← List.append_assoc] at hrun
  have hsorted := a.sorted
  rw [hrun, List.pairwise_append] at hsorted
  -- Without its last leaf the list is sorted still, and so it is the shorter one.
  have hshort : b = ⟨front ++ List.replicate (2 ^ t) x, hsorted.1⟩ := by
    apply eq_of_perm
    rw [hrun] at hperm
    exact ((List.perm_append_singleton x _).symm.trans hperm).cons_inv.symm
  rw [root_eq_iff, hrun, List.append_assoc, ← List.replicate_succ',
    Merkle.fold_append_replicate t x front hne hdvd, hshort]

/-- A leaf that the root does not miss stands at the end of such a run, unless one of the leaves
    that are left is the hash of a pair that holds it. -/
theorem repeatsTail_of_root_eq {strings : List Bytes} (hsep : Separated strings) (a b : LeafList)
    (x : Bytes32) (hperm : a.toList.Perm (x :: b.toList))
    (ha : Merkle.foldStrings a.toList ⊆ strings) (hb : Merkle.foldStrings b.toList ⊆ strings)
    (h : a.root = b.root) :
    Merkle.RepeatsTail a.toList x ∨
      ∃ y z, hashPair y z ∈ b.toList ∧ pairString y z ∈ strings ∧ HoldsItself y z := by
  rw [root_eq_iff] at h
  have hlen : a.toList.length = b.toList.length + 1 := by
    rw [hperm.length_eq, List.length_cons]
  rcases Merkle.eq_append_of_fold_eq hsep _ _ hlen ha hb h with ⟨y, hlast, htail⟩ | hshift
  · -- The last leaf is the one removed, because all others remain.
    have hsame : (y :: b.toList).Perm (x :: b.toList) := by
      rw [hlast] at hperm
      exact (List.perm_append_singleton y b.toList).symm.trans hperm
    have hyx : [y].Perm [x] :=
      (List.perm_append_right_iff b.toList).mp (show ([y] ++ b.toList).Perm ([x] ++ b.toList)
        from hsame)
    rw [List.singleton_perm_singleton] at hyx
    exact Or.inl (hyx ▸ htail)
  · rcases hbs : b.toList with _ | ⟨first, rest⟩
    · -- A list of one leaf has a next level, which has a first hash.
      rw [hbs, List.length_nil] at hlen
      rcases List.length_eq_one_iff.mp hlen with ⟨y, hone⟩
      rw [hone, hbs, Merkle.parents] at hshift
      cases hshift
    · rw [hbs, List.length_cons] at hlen
      rw [hbs, List.head?_cons] at hshift
      -- The first pair of the longer list is hashed to the first leaf that is left.
      rcases has : a.toList with _ | ⟨y, _ | ⟨z, others⟩⟩
      · rw [has, List.length_nil] at hlen
        omega
      · rw [has, List.length_singleton] at hlen
        omega
      rw [has, Merkle.parents, List.head?_cons, Option.some.injEq] at hshift
      rw [has] at ha
      have hpair : pairString y z ∈ strings :=
        ha (Merkle.pairStrings_subset
          (by simp only [List.length_cons]; omega) List.mem_cons_self)
      refine Or.inr ⟨y, z, by rw [hshift]; exact List.mem_cons_self, hpair, ?_⟩
      -- That leaf stands first or second in the longer list, so the pair holds its own hash.
      rcases first_of_removed a b x first rest hperm hbs with hfront | ⟨_, hfront⟩
      · rw [has, List.cons.injEq, List.cons.injEq] at hfront
        exact Or.inr (hshift.trans hfront.2.1.symm)
      · rw [has, List.cons.injEq] at hfront
        exact Or.inl (hshift.trans hfront.1.symm)

end LeafList

end CoinCommit
