import CoinCommit.Ledger.File
import CoinCommit.Proofs.Bytes.Reads
import CoinCommit.Proofs.Disk.Files

/-!
# Chain States That Are Opened Again

A table is written to its file entry by entry, in the order of the keys, and
read by putting the entries into an empty table one after another. Each key
that is read comes after all before it, so its entry is put at the end, and the
table comes about again. A length is written in a word, so this holds of tables
whose keys and values are shorter than 2^64 bytes.

What is said of a disk on which a chain state is opened is therefore said of
every such table: once it is stored in a file, it is the one that is opened.

## Main definitions

* `Table.Sized`: The lengths of all keys and values fit into words.

## Theorems

* `Table.reads_readSized`: A byte string is read from its sized form only.
* `Table.ofImage?_toImage`: A table is read back from its file.
* `Disk.openExistingTable_of_image`, `Disk.openExistingTable_storeTable`: A
  table that has been written is opened.
-/

namespace CoinCommit

namespace Table

/-- The lengths of all keys and values fit into words. -/
def Sized (t : Table) : Prop :=
  ∀ e ∈ t.entries, e.1.length < UInt64.size ∧ e.2.length < UInt64.size

instance (t : Table) : Decidable t.Sized :=
  inferInstanceAs (Decidable (∀ e ∈ t.entries, e.1.length < UInt64.size ∧ e.2.length < UInt64.size))

/-- Every byte string whose length fits into a word is read from its sized form, and nothing is
    read from any other. -/
theorem reads_readSized : Reads readSized CompactSize.sized fun bs => bs.length < UInt64.size := by
  refine CompactSize.reads_read.bind (fun p _ => Cursor.reads_bytes p.1.toNat) ?_ ?_
  · intro p bs _ hlen
    rw [CompactSize.sized, CompactSize.ofLength, hlen, UInt64.ofNat_toNat]
    rfl
  · intro bs
    constructor
    · intro hlt
      exact ⟨(UInt64.ofNat bs.length, (CompactSize.ofLength bs.length).length), rfl,
        (UInt64.toNat_ofNat_of_lt' hlt).symm⟩
    · rintro ⟨p, _, hlen⟩
      exact hlen ▸ p.1.toNat_lt

theorem one_le_length_encodeEntry (e : Bytes × Bytes) : 1 ≤ (encodeEntry e).length := by
  have hpos := CompactSize.length_encode_pos (UInt64.ofNat e.1.length)
  rw [encodeEntry, CompactSize.sized, CompactSize.ofLength, List.length_append, List.length_append]
  omega

/-- Reading goes on with the entry in front put into the table. -/
theorem readEntries_cons (fuel : Nat) (t : Table) (k : Nat) {e : Bytes × Bytes} (s : Bytes)
    (hkey : e.1.length < UInt64.size) (hvalue : e.2.length < UInt64.size) :
    ∃ k', readEntries (fuel + 1) t ⟨k, encodeEntry e ++ s⟩ =
      readEntries fuel (t.insert e.1 e.2) ⟨k', s⟩ := by
  have hsome : encodeEntry e ++ s ≠ [] :=
    List.append_ne_nil_of_left_ne_nil (List.ne_nil_of_length_pos (one_le_length_encodeEntry e)) s
  rw [readEntries, if_neg hsome, encodeEntry, List.append_assoc]
  simp only [reads_readSized.ok_of_append hkey, reads_readSized.ok_of_append hvalue]
  exact ⟨_, rfl⟩

/-- An entry whose key comes after all others is put at the end. -/
theorem entries_insert_of_last {t : Table} {key value : Bytes} (h : ∀ e ∈ t.entries, e.1 < key) :
    (t.insert key value).entries = t.entries ++ [(key, value)] :=
  insertByKey_eq_append h

/-- The entries of a table that come after those of another are read into that one. -/
theorem readEntries_append {t u : Table} {after : List (Bytes × Bytes)} {k fuel : Nat}
    (hu : u.entries = t.entries ++ after) (hsized : u.Sized) (hfuel : after.length < fuel) :
    readEntries fuel t ⟨k, after.flatMap encodeEntry⟩ = some u := by
  -- On the entries that are still to be read; those before them are in the table already.
  induction after generalizing t k fuel with
  | nil =>
      rcases fuel with _ | fuel
      · exact absurd hfuel (Nat.not_lt_zero _)
      rw [List.append_nil] at hu
      rw [List.flatMap_nil, readEntries, if_pos rfl, Table.ext hu]
  | cons e rest ih =>
      rcases fuel with _ | fuel
      · exact absurd hfuel (Nat.not_lt_zero _)
      have hmem : e ∈ u.entries := hu ▸ List.mem_append_right _ List.mem_cons_self
      rcases readEntries_cons fuel t k (rest.flatMap encodeEntry) (hsized e hmem).1
        (hsized e hmem).2 with ⟨k', hread⟩
      -- The key that is read comes after those in the table, so its entry goes to the end.
      have hlast : ∀ e' ∈ t.entries, e'.1 < e.1 := fun e' he' =>
        (List.pairwise_append.mp (hu ▸ u.sorted)).2.2 e' he' e List.mem_cons_self
      have hnext : u.entries = (t.insert e.1 e.2).entries ++ rest := by
        rw [entries_insert_of_last hlast, hu, List.append_assoc, List.singleton_append]
      rw [List.flatMap_cons, hread]
      exact ih hnext (Nat.lt_of_succ_lt_succ hfuel)

/-- A table is read back from its file. -/
theorem ofImage?_toImage {t : Table} (h : t.Sized) : ofImage? t.toImage = some t := by
  have hempty : t.toImage ≠ [] := List.append_ne_nil_of_left_ne_nil (List.cons_ne_nil _ _) _
  have hmark : t.toImage.take mark.length = mark := List.take_left
  have hrest : t.toImage.drop mark.length = t.entries.flatMap encodeEntry := List.drop_left
  have hfuel : t.entries.length < t.toImage.length + 1 := by
    have hentries := length_le_length_flatMap one_le_length_encodeEntry t.entries
    rw [toImage, List.length_append]
    omega
  rw [ofImage?, if_neg hempty, if_pos hmark, hrest]
  exact readEntries_append (List.nil_append _).symm h hfuel

end Table

namespace Disk

variable {d : Disk} {path : String} {place : Place} {mode : Mode} {t : Table}

/-- The file of a table is opened as the table. -/
theorem openExistingTable_of_image (hplace : d.filePlace? (PathText.parse path) = some place)
    (hnode : d.node? place = some (.file mode t.toImage)) (h : t.Sized) :
    d.openExistingTable [] path = .ok (d.storeTable place t, ⟨place, t⟩) := by
  have hfile : d.isFile (PathText.parse path) = true := by
    rw [isFile, read?_of_filePlace? hplace hnode, Option.isSome_some]
  have hfree : ([] : List Place).contains place = false := rfl
  rw [openExistingTable, if_pos hfile, openTable, hplace]
  simp only [hfree, hnode, Table.ofImage?_toImage h, Bool.false_eq_true, if_false]

/-- A table that is stored where a path names a file is opened under this path. -/
theorem openExistingTable_storeTable (hplace : d.filePlace? (PathText.parse path) = some place)
    (hfile : d.isFolder place = false) (h : t.Sized) :
    (d.storeTable place t).openExistingTable [] path =
      .ok ((d.storeTable place t).storeTable place t, ⟨place, t⟩) := by
  have hne := (of_filePlace? hplace).1
  -- A file in the place of a file or of nothing leaves all paths as they are.
  have hplace' : (d.storeTable place t).filePlace? (PathText.parse path) = some place := by
    rw [storeTable, (sameFolders_put_file hne hfile).filePlace?, hplace]
  have hnode : (d.storeTable place t).node? place =
      some (.file (d.modeAt place Mode.everyone) t.toImage) := by
    rw [storeTable, node?_put d place _ hne, if_pos rfl]
  exact openExistingTable_of_image hplace' hnode h

end Disk

end CoinCommit
