import CoinCommit.Ascending
import CoinCommit.Bytes.Basic

/-!
# Tables

The chain state is one table from byte keys to byte values. Its entries are
kept in ascending order of keys, no key twice, so that walking the table is
walking the keys in order and two tables with the same entries are equal. The
order is that of the store in which the table lies, see `Store.Lawful`.

## Main definitions

* `Table`: Entries in ascending order of distinct keys.
* `Table.get?`, `Table.insert`, `Table.erase`: Look-up, writing and removal.

## Theorems

* `Table.get?_eq_some_iff`: A look-up finds exactly the entries.
* `Table.get?_insert`, `Table.get?_erase`: What the operations do to look-ups.
* `Table.ext_get?`: Tables with the same look-ups are equal.
-/

namespace CoinCommit

/-- Entries in ascending order of distinct keys. -/
@[ext]
structure Table where
  entries : List (Bytes × Bytes)
  sorted : Ascending Prod.fst entries

namespace Table

/-- The table without entries. -/
def empty : Table := ⟨[], List.Pairwise.nil⟩

/-- The value under a key. -/
def get? (t : Table) (key : Bytes) : Option Bytes :=
  (t.entries.find? fun e => e.1 = key).map Prod.snd

/-- The table with a value under a key, instead of the one that was there. -/
def insert (t : Table) (key value : Bytes) : Table :=
  ⟨insertByKey Prod.fst (key, value) t.entries, t.sorted.insertByKey (key, value)⟩

/-- The table without a key. -/
def erase (t : Table) (key : Bytes) : Table :=
  ⟨t.entries.filter fun e => e.1 ≠ key, t.sorted.filter _⟩

/-- A look-up finds exactly the entries. -/
theorem get?_eq_some_iff (t : Table) (key value : Bytes) :
    t.get? key = some value ↔ (key, value) ∈ t.entries := by
  unfold get?
  rw [Option.map_eq_some_iff]
  constructor
  · rintro ⟨e, he, rfl⟩
    obtain ⟨hmem, rfl⟩ := t.sorted.find?_eq_some_iff.mp he
    exact hmem
  · intro hmem
    exact ⟨(key, value), t.sorted.find?_eq_some_iff.mpr ⟨hmem, rfl⟩, rfl⟩

/-- Tables with the same look-ups are equal. -/
theorem ext_get? {t u : Table} (h : ∀ key, t.get? key = u.get? key) : t = u := by
  have hmem : ∀ e, e ∈ t.entries ↔ e ∈ u.entries := fun e => by
    rw [← get?_eq_some_iff t e.1 e.2, ← get?_eq_some_iff u e.1 e.2, h]
  exact Table.ext (t.sorted.eq_of_mem_iff u.sorted hmem)

theorem get?_insert (t : Table) (key value key' : Bytes) :
    (t.insert key value).get? key' = if key' = key then some value else t.get? key' := by
  simp only [get?, insert, find?_insertByKey Prod.fst]
  by_cases h : key' = key
  · simp only [if_pos h, Option.map_some]
  · simp only [if_neg h]

theorem get?_erase (t : Table) (key key' : Bytes) :
    (t.erase key).get? key' = if key' = key then none else t.get? key' := by
  simp only [get?, erase, find?_filter_key_ne Prod.fst]
  by_cases h : key' = key
  · simp only [if_pos h, Option.map_none]
  · simp only [if_neg h]

end Table

end CoinCommit
