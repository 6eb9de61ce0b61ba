import CoinCommit.Ledger.Coins
import CoinCommit.Proofs.Coin.Codec

/-!
# The Records of a Table

A scan walks the entries in the order of their keys, so writing one entry may
move its record anywhere in the scan. Up to the order, a table is one entry and
the table without its key, and a scan is what that entry yields and the scan of
the rest. The table without the key is the same before and after a write under
the key; that is how two scans are compared.

## Theorems

* `foldl_eq_of_step`: What a pass over a list comes to.
* `Table.perm_entries_of_get?`, `Table.perm_entries_insert`: An entry and the
  rest of the table.
* `Table.perm_records`, `Table.malformed_eq`: What an entry adds to a scan.
* `Table.getCoin_eq_some`: A stored record has its form under its key.
-/

namespace CoinCommit

/-- A pass over a list has made of the whole list what its steps make of the part that is passed. -/
theorem foldl_eq_of_step {α β : Type} {step : β → α → β} {upTo : List α → β}
    (h : ∀ passed a, step (upTo passed) a = upTo (passed ++ [a])) (as : List α) :
    as.foldl step (upTo []) = upTo as := by
  have hrun : ∀ rest passed : List α, rest.foldl step (upTo passed) = upTo (passed ++ rest) := by
    intro rest
    induction rest with
    | nil => intro passed; rw [List.foldl_nil, List.append_nil]
    | cons a rest ih =>
        intro passed
        rw [List.foldl_cons, h, ih, List.append_assoc, List.singleton_append]
  exact hrun as []

namespace Table

theorem perm_entries_of_get? (t : Table) {key value : Bytes} (h : t.get? key = some value) :
    t.entries.Perm ((key, value) :: (t.erase key).entries) := by
  -- No table has an entry twice, so it is enough that both lists have the same members.
  have hout : (key, value) ∉ (t.erase key).entries := by
    intro he
    rw [← get?_eq_some_iff, get?_erase, if_pos rfl] at he
    cases he
  refine (List.perm_ext_iff_of_nodup t.sorted.nodup
    (List.nodup_cons.mpr ⟨hout, (t.erase key).sorted.nodup⟩)).mpr ?_
  intro e
  rcases e with ⟨key', value'⟩
  rw [List.mem_cons, ← get?_eq_some_iff, ← get?_eq_some_iff, get?_erase]
  by_cases hk : key' = key
  · rw [hk, h, if_pos rfl]
    simp only [Option.some.injEq, Prod.mk.injEq, true_and, reduceCtorEq, or_false]
    exact eq_comm
  · rw [if_neg hk]
    simp only [Prod.mk.injEq, hk, false_and, false_or]

theorem erase_insert (t : Table) (key value : Bytes) :
    (t.insert key value).erase key = t.erase key := by
  -- Both tables are told by what is found under each key.
  apply ext_get?
  intro key'
  rw [get?_erase, get?_erase, get?_insert]
  by_cases hk : key' = key
  · rw [if_pos hk, if_pos hk]
  · rw [if_neg hk, if_neg hk, if_neg hk]

theorem perm_entries_insert (t : Table) (key value : Bytes) :
    (t.insert key value).entries.Perm ((key, value) :: (t.erase key).entries) := by
  have hget : (t.insert key value).get? key = some value := by rw [get?_insert, if_pos rfl]
  have hperm := perm_entries_of_get? _ hget
  rw [erase_insert] at hperm
  exact hperm

/-- An entry under the key of a coin is read as a record of its transaction, and the others are read
    as before. -/
theorem perm_storedCoins {t u : Table} {txid : Bytes32} {value : Bytes}
    (h : t.entries.Perm ((CoinKey.encode txid, value) :: u.entries)) :
    t.storedCoins.Perm (CoinRecord.decode txid value :: u.storedCoins) := by
  -- The entry is the first of the list on the right, and the key names its transaction.
  have hkey : CoinKey.decode? (CoinKey.encode txid) = some txid :=
    CoinKey.decode?_eq_some_iff.mpr rfl
  have hmap := h.filterMap fun e =>
    (CoinKey.decode? e.1).map fun txid => CoinRecord.decode txid e.2
  rw [List.filterMap_cons_some (by rw [hkey]; rfl)] at hmap
  exact hmap

/-- An entry under the key of a coin adds its record to a scan, if it has a live one. -/
theorem perm_records {t u : Table} {txid : Bytes32} {value : Bytes}
    (h : t.entries.Perm ((CoinKey.encode txid, value) :: u.entries)) :
    t.scanCoins.records.Perm
      ((live? (CoinRecord.decode txid value)).toList ++ u.scanCoins.records) := by
  have hlive := (perm_storedCoins h).filterMap live?
  rw [List.filterMap_cons] at hlive
  simp only [scanCoins]
  -- A record that has no live output adds nothing.
  rcases hr : live? (CoinRecord.decode txid value) with _ | r
  · rw [hr] at hlive
    exact hlive
  · rw [hr] at hlive
    exact hlive

/-- The entry is malformed or it is not, and the others count as before. -/
theorem malformed_eq {t u : Table} {txid : Bytes32} {value : Bytes}
    (h : t.entries.Perm ((CoinKey.encode txid, value) :: u.entries)) :
    t.scanCoins.malformed =
      u.scanCoins.malformed + if isMalformed (CoinRecord.decode txid value) then 1 else 0 :=
  ((perm_storedCoins h).countP_eq isMalformed).trans List.countP_cons

theorem getCoin_eq_some {t : Table} {txid : Bytes32} {r : CoinRecord}
    (h : t.getCoin txid = .ok (some r)) :
    t.get? (CoinKey.encode txid) = some r.encode ∧ r.txid = txid ∧ r.WithinLimits := by
  rw [getCoin] at h
  split at h
  · -- A value is stored, and it was read; so it is the form of what was read.
    rename_i value hget
    rcases hdec : CoinRecord.decode txid value with e | r'
    · rw [hdec] at h
      cases h
    · rw [hdec] at h
      cases h
      rcases CoinRecord.of_decode_eq_ok hdec with ⟨htxid, hlimits, hvalue⟩
      exact ⟨by rw [hget, hvalue], htxid, hlimits⟩
  · cases h

end Table

end CoinCommit
