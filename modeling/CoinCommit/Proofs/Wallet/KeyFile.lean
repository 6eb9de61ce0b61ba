import CoinCommit.Ledger.File
import CoinCommit.Proofs.Disk.Files
import CoinCommit.Wallet.KeyFile

/-!
# Key Files Beside a Chain State

A chain state is written to its file when it is opened, so what is read of the
disk afterwards could be something else. It is not, for a key file: writing a
file in the place of a file changes no folder, so every path leads where it led
before, and no other file is touched. The two files cannot be one, because the
bytes of a chain state are no text, or there are none.

## Theorems

* `Disk.of_openTable`: What opening a chain state finds and writes.
* `KeyRing.ofBytes_ne_ok_of_image`: No chain state is a key file.
* `KeyRing.load_of_openExistingTable`: A key ring is loaded as before.
-/

namespace CoinCommit

namespace Disk

variable {d : Disk}

/-- A chain state that is opened has been read from a file, or there was nothing in its place; it is
    written to that place. -/
theorem of_openTable {locked : List Place} {path : String} {d₁ : Disk} {opened : OpenTable}
    (h : d.openTable locked path = .ok (d₁, opened)) :
    opened.place ≠ [] ∧ d₁ = d.storeTable opened.place opened.table ∧
      (d.node? opened.place = none ∨
        ∃ mode content, d.node? opened.place = some (.file mode content) ∧
          Table.ofImage? content = some opened.table) := by
  rw [openTable] at h
  rcases hplace : d.filePlace? (PathText.parse path) with _ | place
  · rw [hplace] at h
    cases h
  have hne := (of_filePlace? hplace).1
  simp only [hplace] at h
  -- A file that is held open already is refused.
  by_cases hlocked : locked.contains place = true
  · rw [if_pos hlocked] at h
    cases h
  rw [if_neg hlocked] at h
  rcases hnode : d.node? place with _ | _ | ⟨mode, content⟩
  · -- Nothing is there, and a file is created.
    simp only [hnode] at h
    cases h
    exact ⟨hne, rfl, Or.inl hnode⟩
  · simp only [hnode] at h
    cases h
  · -- A file is there, whose bytes have to be an image.
    simp only [hnode] at h
    rcases himage : Table.ofImage? content with _ | t
    · rw [himage] at h
      cases h
    · rw [himage] at h
      cases h
      exact ⟨hne, rfl, Or.inr ⟨mode, content, hnode, himage⟩⟩

end Disk

/-- A text starts with a byte that starts a character. -/
theorem Utf8.isUTF8FirstByte_of_decode? {b : UInt8} {rest : Bytes} {s : String}
    (h : decode? (b :: rest) = some s) : b.IsUTF8FirstByte := by
  have hvalid : (⟨(b :: rest).toArray⟩ : ByteArray).IsValidUTF8 := by
    rw [← encode_of_decode? h]
    exact s.isValidUTF8
  exact hvalid.isUTF8FirstByte_getElem_zero (Nat.succ_pos rest.length)

namespace KeyRing

variable {scheme : SignatureScheme} {ring : KeyRing scheme}

/-- The file of a chain state is no text, or it is empty; a key file is neither. -/
theorem ofBytes_ne_ok_of_image {content : Bytes} {t : Table}
    (h : Table.ofImage? content = some t) : ofBytes content ≠ .ok ring := by
  intro hring
  rw [Table.ofImage?] at h
  by_cases hempty : content = []
  · subst hempty
    cases hring
  rw [if_neg hempty] at h
  by_cases hmark : content.take Table.mark.length = Table.mark
  · have hsplit := List.take_append_drop Table.mark.length content
    rw [hmark] at hsplit
    rw [← hsplit, ofBytes] at hring
    rcases htext : Utf8.decode? (Table.mark ++ content.drop Table.mark.length) with _ | s
    · rw [htext] at hring
      cases hring
    · -- The mark starts with a byte that can only continue a character.
      exact absurd (Utf8.isUTF8FirstByte_of_decode? htext) (by decide)
  · rw [if_neg hmark] at h
    cases h

/-- A key ring is loaded after a chain state is opened as it was before. -/
theorem load_of_openExistingTable {d d₁ : Disk} {locked : List Place} {store path : String}
    {opened : OpenTable} (hopen : d.openExistingTable locked store = .ok (d₁, opened))
    (hload : load d path = .ok ring) : load d₁ path = .ok ring := by
  rw [Disk.openExistingTable] at hopen
  -- Only a file that is there already is opened.
  by_cases hisFile : d.isFile (PathText.parse store) = true
  · rw [if_pos hisFile] at hopen
    rcases Disk.of_openTable hopen with ⟨hne, hwritten, hfound⟩
    rw [load] at hload
    rcases hread : d.read? (PathText.parse path) with _ | content
    · rw [hread] at hload
      cases hload
    simp only [hread] at hload
    rcases Disk.read?_eq_some_iff.mp hread with ⟨q, keyMode, hfind, hnode⟩
    have hfile : d.isFolder opened.place = false :=
      Disk.isFolder_eq_false_iff.mpr
        (hfound.imp_right fun ⟨mode, content, hnode, _⟩ => ⟨mode, content, hnode⟩)
    -- Were the key file that of the chain state, it would not have been loaded.
    have hother : q ≠ opened.place := by
      rintro rfl
      rcases hfound with hnone | ⟨_, _, hstored, himage⟩
      · cases hnone.symm.trans hnode
      · cases hstored.symm.trans hnode
        exact ofBytes_ne_ok_of_image himage hload
    rw [load, hwritten, Disk.storeTable, Disk.read?_put_file hne hfile hfind hother hread]
    exact hload
  · rw [if_neg hisFile] at hopen
    cases hopen

end KeyRing

end CoinCommit
