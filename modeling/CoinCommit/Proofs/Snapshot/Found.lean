import CoinCommit.Proofs.Lists.Halving
import CoinCommit.Proofs.Snapshot.Lookup

/-!
# The First Place of a Leaf

A leaf is searched for by halves, which is right only because leaves are in
ascending order: those before it stand in front of all others, so there is one
place where it can be, and that is the first one if it occurs several times. The
order is made when a list is built and belongs to its type, so no list can be
searched in vain, however the hashes came.

What a snapshot answers for a leaf is therefore a function of the hashes that it
was made of, each as often as it occurs. It does not matter in which order they
were given, nor whether they were given at all or collected from a source.

## Main definitions

* `LeafList.search?`: The first place of a hash, searched for by halves.
* `Snapshot.MadeOf`: The hashes that a snapshot was made of.
* `Snapshot.LooksUp`: A snapshot that answers for a leaf as it should.

## Theorems

* `LeafList.getElem?_of_cutAt`: Where a hash stands, if it is there.
* `LeafList.search?_eq`: The search finds the first place.
* `Snapshot.looks_up_exactly`: Every leaf is found, and nothing else.
-/

namespace CoinCommit

namespace LeafList

/-- The first place of a hash, searched for by halves; absent if the leaves are accessed beyond
    their end. -/
def search? (leaves : LeafList) (hash : Bytes32) : Option (Option Nat) := do
  let items := leaves.toList.toArray
  let place ← partitionPoint (fun leaf => leaf < hash) items
  if place < items.size then do
    let found ← items[place]?
    return if found = hash then some place else none
  else return none

variable {leaves : LeafList} {hash : Bytes32} {place : Nat}

/-- The leaves before a hash stand in front of the others. -/
theorem pairwise_lt (leaves : LeafList) (hash : Bytes32) :
    leaves.toList.Pairwise fun a b => decide (b < hash) = true → decide (a < hash) = true := by
  -- What stands before one that is before the hash is before the hash.
  refine leaves.sorted.imp fun {a b} hab hb => decide_eq_true ?_
  exact List.lt_of_le_of_lt (show a.bytes ≤ b.bytes from hab) (of_decide_eq_true hb)

/-- A hash that occurs stands where the leaves before it end. -/
theorem getElem?_of_cutAt (h : CutAt (fun leaf => leaf < hash) leaves.toList.toArray place)
    (hmem : hash ∈ leaves.toList) : leaves.toList[place]? = some hash := by
  rcases List.mem_iff_getElem.mp hmem with ⟨j, hj, hhash⟩
  have hirrefl : ¬ hash < hash := List.lt_irrefl hash.bytes
  -- The cut is not behind a place of the hash, as nothing in front of it is the hash.
  have hle : place ≤ j := by
    by_contra hlt
    have hbefore := of_decide_eq_true (h.before j hj (Nat.lt_of_not_le hlt))
    exact hirrefl (hhash ▸ hbefore)
  have hplace : place < leaves.toList.length := Nat.lt_of_le_of_lt hle hj
  -- What stands there is not before the hash, and not behind it either, as the hash comes later.
  have hge : hash ≤ leaves.toList[place] :=
    List.not_lt.mp (of_decide_eq_false (h.behind place hplace (Nat.le_refl place)))
  have hle' : leaves.toList[place] ≤ hash := by
    rcases Nat.eq_or_lt_of_le hle with rfl | hlt
    · exact hhash ▸ List.le_refl _
    · exact hhash ▸ List.pairwise_iff_getElem.mp leaves.sorted place j hplace hj hlt
  rw [List.getElem?_eq_getElem hplace, Bytes32.le_antisymm hle' hge]

theorem indexOf?_eq_some_iff :
    leaves.indexOf? hash = some place ↔
      leaves.toList[place]? = some hash ∧ ∀ j, j < place → leaves.toList[j]? ≠ some hash := by
  rw [indexOf?, List.idxOf?_eq_some_iff]
  constructor
  · rintro ⟨hplace, hhash, hfirst⟩
    refine ⟨List.getElem?_eq_some_iff.mpr ⟨hplace, hhash⟩, fun j hj he => ?_⟩
    rcases List.getElem?_eq_some_iff.mp he with ⟨_, he⟩
    exact hfirst j hj he
  · rintro ⟨hhash, hfirst⟩
    rcases List.getElem?_eq_some_iff.mp hhash with ⟨hplace, heq⟩
    refine ⟨hplace, heq, fun j hj he => hfirst j hj ?_⟩
    exact List.getElem?_eq_some_iff.mpr ⟨Nat.lt_trans hj hplace, he⟩

/-- It does not occur any earlier. -/
theorem indexOf?_of_cutAt (h : CutAt (fun leaf => leaf < hash) leaves.toList.toArray place)
    (hhash : leaves.toList[place]? = some hash) : leaves.indexOf? hash = some place := by
  refine indexOf?_eq_some_iff.mpr ⟨hhash, fun j hj he => ?_⟩
  rcases List.getElem?_eq_some_iff.mp he with ⟨hj', he⟩
  -- Everything in front of the cut is before the hash, and so is not the hash.
  have hbefore := of_decide_eq_true (h.before j hj' hj)
  exact List.lt_irrefl hash.bytes (he ▸ hbefore)

/-- Searching by halves never goes beyond the end of the leaves, and finds the first place of a hash
    if there is one. -/
theorem search?_eq (leaves : LeafList) (hash : Bytes32) :
    leaves.search? hash = some (leaves.indexOf? hash) := by
  have hsearch : ∃ place,
      partitionPoint (fun leaf => decide (leaf < hash)) leaves.toList.toArray = some place ∧
        CutAt (fun leaf => decide (leaf < hash)) leaves.toList.toArray place :=
    exists_partitionPoint (pairwise_lt leaves hash)
  rcases hsearch with ⟨place, hplace, hcut⟩
  simp only [search?, hplace, Option.bind_eq_bind, Option.bind_some, List.size_toArray,
    List.getElem?_toArray]
  -- If the hash does not occur, another one stands at the cut, or the cut is at the end.
  by_cases hmem : hash ∈ leaves.toList
  · have hhash := getElem?_of_cutAt hcut hmem
    rcases List.getElem?_eq_some_iff.mp hhash with ⟨hlt, _⟩
    rw [if_pos hlt, hhash, indexOf?_of_cutAt hcut hhash, Option.bind_some, if_pos rfl]
    rfl
  · have hnone : leaves.indexOf? hash = none := List.idxOf?_eq_none_iff.mpr hmem
    rw [hnone]
    by_cases hlt : place < leaves.toList.length
    · have hne : ¬ leaves.toList[place] = hash := fun he => hmem (he ▸ List.getElem_mem hlt)
      rw [if_pos hlt, List.getElem?_eq_getElem hlt, Option.bind_some, if_neg hne]
      rfl
    · rw [if_neg hlt]
      rfl

end LeafList

namespace Snapshot

/-- The snapshot was made of these hashes: they were given, or they are the leaves of what a source
    has within a window. -/
inductive MadeOf : Snapshot → List Bytes32 → Prop
  | ofLeaves (w : Window) (hashes : List Bytes32) : MadeOf (ofLeaves w hashes) hashes
  | collect {source : Source} {w : Window} {scan : Scan} {s : Snapshot}
      (hscan : source.scan = .ok scan) (h : collect source w = .ok s) :
      MadeOf s ((outputsWithin w scan.records).filterMap Utxo.leaf?)

/-- The snapshot answers for a leaf as it should if it was made of these hashes: it has them in
    order, finds the leaf if it is one of them, and then gives its first place, which a search by
    halves finds too, with the path of this place, which is accepted. -/
structure LooksUp (s : Snapshot) (hashes : List Bytes32) (leaf : Bytes32) : Prop where
  leaves : s.leaves = LeafList.ofList hashes
  sorted : s.leaves.toList.Pairwise (· ≤ ·)
  perm : s.leaves.toList.Perm hashes
  found : (s.proveLeaf? leaf).isSome = true ↔ leaf ∈ hashes
  first : ∀ i path, s.proveLeaf? leaf = some (i, path) ↔
    (s.leaves.toList[i]? = some leaf ∧ ∀ j, j < i → s.leaves.toList[j]? ≠ some leaf) ∧
      s.leaves.prove? i = some path
  index : s.leaves.indexOf? leaf = (s.proveLeaf? leaf).map Prod.fst
  searched : s.leaves.search? leaf = some (s.leaves.indexOf? leaf)
  accepted : ∀ i path, s.proveLeaf? leaf = some (i, path) → path.verifies leaf s.root = true

variable {s : Snapshot} {hashes : List Bytes32} {leaf : Bytes32} {i : Nat} {path : Path}

theorem MadeOf.leaves_eq (h : s.MadeOf hashes) : s.leaves = LeafList.ofList hashes := by
  cases h with
  | ofLeaves w hashes => rfl
  | collect hscan h => rw [collect_eq_ok hscan h, ofScan]

/-- Whatever place is found has a path. -/
theorem indexOf?_eq_map_proveLeaf? (s : Snapshot) (leaf : Bytes32) :
    s.leaves.indexOf? leaf = (s.proveLeaf? leaf).map Prod.fst := by
  -- No place, and so no path.
  rcases hindex : s.leaves.indexOf? leaf with _ | i
  · rw [proveLeaf?, hindex]
    rfl
  · rcases List.idxOf?_eq_some_iff.mp hindex with ⟨hi, _⟩
    rw [proveLeaf?_eq_some_iff.mpr ⟨hindex, LeafList.prove?_eq_some hi⟩, Option.map_some]

/-- A leaf is looked up among the hashes that a snapshot was made of, however they came. Snapshots
    of the same hashes in any order have the same leaves and give the same answer. -/
theorem looks_up_exactly (s : Snapshot) (hashes : List Bytes32) (h : s.MadeOf hashes)
    (leaf : Bytes32) :
    s.LooksUp hashes leaf ∧
      ∀ s' hashes', MadeOf s' hashes' → hashes'.Perm hashes →
        s'.leaves = s.leaves ∧ s'.proveLeaf? leaf = s.proveLeaf? leaf := by
  have hperm : s.leaves.toList.Perm hashes := h.leaves_eq ▸ LeafList.perm_ofList hashes
  refine ⟨?_, fun s' hashes' h' hsame => ?_⟩
  · refine ⟨h.leaves_eq, s.leaves.sorted, hperm, ?_, fun i path => ?_,
      indexOf?_eq_map_proveLeaf? s leaf, LeafList.search?_eq s.leaves leaf,
      fun i path hfound => (of_proveLeaf? hfound).2⟩
    · rw [Option.isSome_iff_exists, exists_proveLeaf?_iff, hperm.mem_iff]
    · rw [proveLeaf?_eq_some_iff, LeafList.indexOf?_eq_some_iff]
  · -- The leaves are sorted, so the order of the hashes does not matter.
    have hleaves : s'.leaves = s.leaves := by
      rw [h.leaves_eq, h'.leaves_eq, LeafList.ofList_eq_of_perm hsame]
    rw [proveLeaf?, proveLeaf?, hleaves]
    exact ⟨rfl, rfl⟩

end Snapshot

namespace Repeated

/-- Hashes with one that is there three times. -/
def hashes : List Bytes32 := [.fill 3, .fill 1, .fill 3, .fill 2, .fill 3]

theorem ofList_hashes : LeafList.ofList hashes =
    ⟨[.fill 1, .fill 2, .fill 3, .fill 3, .fill 3], by decide⟩ :=
  LeafList.eq_of_perm ((LeafList.perm_ofList hashes).trans (by decide))

end Repeated

/-- The hash that is repeated is found at its first place, and with the same path if the hashes are
    given the other way round. -/
theorem Snapshot.looks_up_repeated :
    MadeOf (ofLeaves .all Repeated.hashes) Repeated.hashes ∧
      Repeated.hashes.reverse.Perm Repeated.hashes ∧
        ∃ path, (ofLeaves .all Repeated.hashes).proveLeaf? (.fill 3) = some (2, path) ∧
          path.verifies (.fill 3) (ofLeaves .all Repeated.hashes).root = true ∧
            (ofLeaves .all Repeated.hashes.reverse).proveLeaf? (.fill 3) = some (2, path) := by
  have hmade := MadeOf.ofLeaves .all Repeated.hashes
  have hturned := List.reverse_perm Repeated.hashes
  rcases looks_up_exactly _ _ hmade (.fill 3) with ⟨hanswer, hsame⟩
  -- There are two leaves before the first of the three.
  have hplace : (ofLeaves .all Repeated.hashes).leaves.toList[2]? = some (.fill 3) ∧
      ∀ j, j < 2 → (ofLeaves .all Repeated.hashes).leaves.toList[j]? ≠ some (.fill 3) := by
    rw [hanswer.leaves, Repeated.ofList_hashes]
    decide
  rcases List.getElem?_eq_some_iff.mp hplace.1 with ⟨hlt, _⟩
  have hfound := (hanswer.first 2 _).mpr ⟨hplace, LeafList.prove?_eq_some hlt⟩
  refine ⟨hmade, hturned, _, hfound, hanswer.accepted 2 _ hfound, ?_⟩
  rw [(hsame _ _ (MadeOf.ofLeaves .all Repeated.hashes.reverse) hturned).2, hfound]

end CoinCommit
