import CoinCommit.Bytes.Basic

/-!
# Leaf Lists

The leaves of a commitment are kept in ascending order, with equal leaves as
often as they occur. The order makes the commitment a function of the leaves
alone, whatever order they were found in, and it belongs to the type: there is
no other way to build a list than to sort one.

## Main definitions

* `LeafList`: Hashes in ascending order, repetitions kept.
* `LeafList.ofList`: Any hashes, put in order.
* `LeafList.indexOf?`: The first place of a hash.

## Theorems

* `LeafList.perm_ofList`: Sorting keeps every hash as often as it occurs.
* `LeafList.eq_of_perm`: Lists with the same hashes are equal.
* `LeafList.ofList_eq_of_perm`: Sorting forgets the order found.
-/

namespace CoinCommit

/-- Hashes in ascending order, equal ones as often as they occur. -/
structure LeafList where
  toList : List Bytes32
  sorted : toList.Pairwise (· ≤ ·)

namespace LeafList

/-- Whether one hash may stand before another. -/
def inOrder (a b : Bytes32) : Bool := decide (a ≤ b)

theorem inOrder_trans (a b c : Bytes32) (hab : inOrder a b = true) (hbc : inOrder b c = true) :
    inOrder a c = true :=
  decide_eq_true (Bytes32.le_trans (of_decide_eq_true hab) (of_decide_eq_true hbc))

theorem inOrder_total (a b : Bytes32) : (inOrder a b || inOrder b a) = true := by
  rcases Bytes32.le_total a b with h | h
  · simp only [inOrder, decide_eq_true h, Bool.true_or]
  · simp only [inOrder, decide_eq_true h, Bool.or_true]

/-- The hashes of a list, put in order. -/
def ofList (hashes : List Bytes32) : LeafList where
  toList := hashes.mergeSort inOrder
  sorted := (List.pairwise_mergeSort inOrder_trans inOrder_total hashes).imp
    fun h => of_decide_eq_true h

/-- The list without leaves. -/
def empty : LeafList := ⟨[], List.Pairwise.nil⟩

/-- The number of leaves. -/
def length (leaves : LeafList) : Nat := leaves.toList.length

/-- The first place of a hash. -/
def indexOf? (leaves : LeafList) (hash : Bytes32) : Option Nat := leaves.toList.idxOf? hash

/-- Sorting keeps every hash as often as it occurs. -/
theorem perm_ofList (hashes : List Bytes32) : (ofList hashes).toList.Perm hashes :=
  List.mergeSort_perm hashes _

/-- Lists with the same hashes, each as often, are equal. -/
theorem eq_of_perm {a b : LeafList} (h : a.toList.Perm b.toList) : a = b := by
  -- Hashes in order can stand in one way only.
  have he : a.toList = b.toList :=
    h.eq_of_pairwise (fun _ _ _ _ => Bytes32.le_antisymm) a.sorted b.sorted
  cases a
  cases b
  cases he
  rfl

/-- The order in which hashes are found does not matter. -/
theorem ofList_eq_of_perm {xs ys : List Bytes32} (h : xs.Perm ys) : ofList xs = ofList ys :=
  eq_of_perm ((perm_ofList xs).trans (h.trans (perm_ofList ys).symm))

end LeafList

end CoinCommit
