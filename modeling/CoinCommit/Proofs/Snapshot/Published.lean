import CoinCommit.Proofs.Disk.Files
import CoinCommit.Snapshot.Manifest

/-!
# What Publishing Leaves Behind

A manifest is put into a temporary file beside its target, and the file is then
moved over the target. Whoever publishes gives a tag that no file has yet, so the
temporary file is a new one.

There are three ways to end. If there can be no file of the temporary name,
nothing has happened. If there can be one and there can be a file at the target
as well, the manifest is at the target and nothing else has changed. In between
lies the case that a path has a folder for its file but is no place for one, say
because a folder is there already: then the temporary file has been written, it
cannot be moved, and it stays.

## Main definitions

* `Disk.ChangedAt`: Two disks that differ at one place only.
* `Disk.TempIsFresh`: Nothing is at the temporary name.

## Theorems

* `Disk.changedAt_of_replaced`: A file that was moved from a fresh place.
* `Disk.TempIsFresh.publish_ok_iff`, `Disk.TempIsFresh.publish_createTemp_iff`:
  When a file is published, and when nothing happens.
* `Disk.TempIsFresh.of_publish_ok`, `Disk.TempIsFresh.of_publish_rename`: What has
  changed when it is published, and when it cannot be moved.
* `Manifest.save_outcome`: What has changed after each of them, and when it comes
  to it.
* `Manifest.save_over_file`, `Manifest.save_over_folder`: A manifest that takes the
  place of a file, and one whose temporary file stays.
-/

namespace CoinCommit

namespace Disk

variable {d d' : Disk} {path tag : String} {data : Bytes}

/-- There is a node at the place, and everywhere else is what was there before. -/
structure ChangedAt (d d' : Disk) (place : Place) (node : Node) : Prop where
  workingFolder : d'.workingFolder = d.workingFolder
  umask : d'.umask = d.umask
  here : d'.node? place = some node
  elsewhere : ∀ q, q ≠ place → d'.node? q = d.node? q

theorem changedAt_put {place : Place} (hne : place ≠ []) (node : Node) :
    ChangedAt d (d.put place node) place node := by
  refine ⟨rfl, rfl, ?_, fun q hq => ?_⟩
  · rw [node?_put d place node hne, if_pos rfl]
  · rw [node?_put d q node hne, if_neg hq]

/-- If nothing was at the place from which a file was moved, nothing but the target has changed. -/
theorem changedAt_of_replaced {temp new : Place} {mode : Mode}
    (h : Replaced d d' temp new mode data) (hfresh : d.node? temp = none) :
    ChangedAt d d' new (.file mode data) := by
  refine ⟨h.workingFolder, h.umask, h.placed, fun q hq => ?_⟩
  by_cases htemp : q = temp
  · -- The temporary file is gone, and there was none before.
    subst htemp
    rw [h.left hq, hfresh]
  · exact h.elsewhere q htemp hq

/-- The temporary file would be a new one. -/
def TempIsFresh (d : Disk) (path tag : String) : Prop :=
  ∀ temp, d.filePlace? (publishTemp path tag) = some temp → d.node? temp = none

/-- With a fresh name the temporary file is created whenever there can be one. -/
theorem TempIsFresh.create?_eq_some_iff (h : d.TempIsFresh path tag) :
    d.create? (publishTemp path tag) Mode.everyone data = some d' ↔
      ∃ temp, d.filePlace? (publishTemp path tag) = some temp ∧
        d' = d.put temp (.file (Mode.everyone &&& ~~~d.umask) data) := by
  rw [Disk.create?_eq_some_iff]
  refine exists_congr fun temp => and_congr_right fun htemp => ?_
  -- Nothing is at the temporary name, so the mode is that of a new file.
  have hnone := h temp htemp
  rw [modeAt_of_none hnone]
  exact and_iff_right (isFolder_eq_false_iff.mpr (Or.inl hnone))

/-- A file is published if there can be one under both names. -/
theorem TempIsFresh.publish_ok_iff (hfresh : d.TempIsFresh path tag) :
    (d.publish path tag data).2 = .ok () ↔
      (∃ temp, d.filePlace? (publishTemp path tag) = some temp) ∧
        ∃ new, d.filePlace? (PathText.parse path) = some new ∧ d.isFolder new = false := by
  constructor
  · intro h
    rcases hpublish : d.publish path tag data with ⟨d', answer⟩
    rw [hpublish] at h
    cases h
    rcases of_publish hpublish with ⟨temp, new, htemp, hnew, hreplaced⟩
    exact ⟨⟨temp, htemp⟩, new, hnew, hreplaced.target_free⟩
  · rintro ⟨⟨temp, htemp⟩, new, hnew, hfree⟩
    -- What is not there is no folder, so a file can be created.
    have htempFree : d.isFolder temp = false :=
      isFolder_eq_false_iff.mpr (Or.inl (hfresh temp htemp))
    rcases exists_publish data htemp htempFree hnew hfree with ⟨d', hpublish⟩
    rw [hpublish]

/-- The temporary file is missing only if there can be none of its name. -/
theorem TempIsFresh.publish_createTemp_iff (hfresh : d.TempIsFresh path tag) :
    (d.publish path tag data).2 = .error .createTemp ↔
      d.filePlace? (publishTemp path tag) = none := by
  have hmissing : d.create? (publishTemp path tag) Mode.everyone data = none ↔
      d.filePlace? (publishTemp path tag) = none := by
    -- No disk comes of the creation if no place does.
    rw [Option.eq_none_iff_forall_ne_some, Option.eq_none_iff_forall_ne_some]
    constructor
    · intro h temp htemp
      exact h _ (hfresh.create?_eq_some_iff.mpr ⟨temp, htemp, rfl⟩)
    · intro h written hwritten
      rcases hfresh.create?_eq_some_iff.mp hwritten with ⟨temp, htemp, _⟩
      exact h temp htemp
  rw [← hmissing]
  rcases publish_cases d path tag data with
    ⟨hcreate, hpublish⟩ | ⟨written, hcreate, _, hpublish⟩ | ⟨written, d', hcreate, _, hpublish⟩
  · rw [hpublish]
    exact iff_of_true rfl hcreate
  · rw [hpublish, hcreate]
    exact iff_of_false nofun nofun
  · rw [hpublish, hcreate]
    exact iff_of_false nofun nofun

/-- A file that is published under a fresh name is at its target, and nothing else has changed. -/
theorem TempIsFresh.of_publish_ok (hfresh : d.TempIsFresh path tag)
    (h : d.publish path tag data = (d', .ok ())) :
    ∃ new, d.filePlace? (PathText.parse path) = some new ∧ d.isFolder new = false ∧
      ChangedAt d d' new (.file (Mode.everyone &&& ~~~d.umask) data) := by
  rcases of_publish h with ⟨temp, new, htemp, hnew, hreplaced⟩
  have hnone := hfresh temp htemp
  rw [modeAt_of_none hnone] at hreplaced
  exact ⟨new, hnew, hreplaced.target_free, changedAt_of_replaced hreplaced hnone⟩

theorem of_publish_createTemp (h : d.publish path tag data = (d', .error .createTemp)) :
    d' = d := by
  rcases publish_cases d path tag data with
    ⟨_, hpublish⟩ | ⟨_, _, _, hpublish⟩ | ⟨_, _, _, _, hpublish⟩
  · -- Nothing was written.
    cases h.symm.trans hpublish
    rfl
  · cases h.symm.trans hpublish
  · cases h.symm.trans hpublish

/-- A file that was created and could not be moved is at the temporary name. -/
theorem TempIsFresh.of_publish_rename (hfresh : d.TempIsFresh path tag)
    (h : d.publish path tag data = (d', .error .rename)) :
    ∃ temp, d.filePlace? (publishTemp path tag) = some temp ∧ d.node? temp = none ∧
      ChangedAt d d' temp (.file (Mode.everyone &&& ~~~d.umask) data) := by
  rcases publish_cases d path tag data with
    ⟨_, hpublish⟩ | ⟨_, hcreate, _, hpublish⟩ | ⟨_, _, _, _, hpublish⟩
  · cases h.symm.trans hpublish
  · -- The file was written, and the rename failed.
    cases h.symm.trans hpublish
    rcases hfresh.create?_eq_some_iff.mp hcreate with ⟨temp, htemp, rfl⟩
    exact ⟨temp, htemp, hfresh temp htemp, changedAt_put (of_filePlace? htemp).1 _⟩
  · cases h.symm.trans hpublish

end Disk

namespace Manifest

open Disk

/-- A manifest that is saved under a fresh temporary name is at its target, and nothing else has
    changed; this comes about if there can be a file under both names. If there can be none under
    the temporary name nothing has changed at all. In the one case that is left nothing has changed
    at the target or anywhere else, but the temporary file is there, which was not there before. -/
theorem save_outcome (m : Manifest) (d : Disk) (path tag : String)
    (hfresh : d.TempIsFresh path tag) :
    (∀ d', m.save d path tag = (d', .ok ()) →
      ∃ new, d.filePlace? (PathText.parse path) = some new ∧ d.isFolder new = false ∧
        ChangedAt d d' new (.file (Mode.everyone &&& ~~~d.umask) (Utf8.encode m.toText))) ∧
    (∀ d', m.save d path tag = (d', .error .createTemp) → d' = d) ∧
    (∀ d', m.save d path tag = (d', .error .rename) →
      ∃ temp, d.filePlace? (publishTemp path tag) = some temp ∧ d.node? temp = none ∧
        ChangedAt d d' temp (.file (Mode.everyone &&& ~~~d.umask) (Utf8.encode m.toText))) ∧
    ((m.save d path tag).2 = .ok () ↔
      (∃ temp, d.filePlace? (publishTemp path tag) = some temp) ∧
        ∃ new, d.filePlace? (PathText.parse path) = some new ∧ d.isFolder new = false) ∧
    ((m.save d path tag).2 = .error .createTemp ↔
      d.filePlace? (publishTemp path tag) = none) := by
  rw [save]
  exact ⟨fun _ h => hfresh.of_publish_ok h, fun _ h => of_publish_createTemp h,
    fun _ h => hfresh.of_publish_rename h, hfresh.publish_ok_iff, hfresh.publish_createTemp_iff⟩

end Manifest

namespace Occupied

/-- A working folder with another folder and a file for its owner alone. -/
def disk : Disk :=
  ⟨["home"], 0o022, [(["home"], .folder), (["home", "out"], .folder),
    (["home", "old.json"], .file 0o600 [1, 2])]⟩

/-- A manifest of three leaves. -/
def manifest : Manifest := ⟨1, 0, 100, 3, "22", false⟩

/-- The place of the temporary file. -/
def temp : Place := ["home", ".SNAPSHOT.json.tmp.7.1"]

theorem filePlace?_temp_of_file :
    disk.filePlace? (Disk.publishTemp "old.json" "7.1") = some temp := by
  decide +kernel

theorem filePlace?_temp_of_folder :
    disk.filePlace? (Disk.publishTemp "out" "7.1") = some temp := by
  decide +kernel

end Occupied

namespace Manifest

open Disk Occupied

/-- A manifest is saved over a file for its owner alone, and then everyone may read it. -/
theorem save_over_file :
    disk.TempIsFresh "old.json" "7.1" ∧
      ∃ d', manifest.save disk "old.json" "7.1" = (d', .ok ()) ∧
        ChangedAt disk d' ["home", "old.json"] (.file 0o644 (Utf8.encode manifest.toText)) := by
  have hfresh : disk.TempIsFresh "old.json" "7.1" := by
    intro place hplace
    cases filePlace?_temp_of_file.symm.trans hplace
    rfl
  have hold : disk.filePlace? (PathText.parse "old.json") = some ["home", "old.json"] := by
    decide +kernel
  rcases save_outcome manifest disk "old.json" "7.1" hfresh with ⟨hok, _, _, hiff, _⟩
  have hsaved : (manifest.save disk "old.json" "7.1").2 = .ok () :=
    hiff.mpr ⟨⟨temp, filePlace?_temp_of_file⟩, _, hold, by decide⟩
  rcases hsave : manifest.save disk "old.json" "7.1" with ⟨d', answer⟩
  rw [hsave] at hsaved
  cases hsaved
  rcases hok d' hsave with ⟨new, hnew, _, hchanged⟩
  cases hold.symm.trans hnew
  exact ⟨hfresh, d', rfl, hchanged⟩

/-- A manifest cannot be saved where there is a folder. The attempt leaves a file behind, under a
    name that was free before. -/
theorem save_over_folder :
    disk.TempIsFresh "out" "7.1" ∧ disk.node? temp = none ∧
      ∃ d', manifest.save disk "out" "7.1" = (d', .error .rename) ∧
        d'.node? temp = some (.file 0o644 (Utf8.encode manifest.toText)) := by
  have hfresh : disk.TempIsFresh "out" "7.1" := by
    intro place hplace
    cases filePlace?_temp_of_folder.symm.trans hplace
    rfl
  have hfolder : disk.filePlace? (PathText.parse "out") = some ["home", "out"] := by
    decide +kernel
  refine ⟨hfresh, rfl, ?_⟩
  rw [save]
  rcases publish_cases disk "out" "7.1" (Utf8.encode manifest.toText) with
    ⟨hcreate, _⟩ | ⟨written, hcreate, _, hpublish⟩ | ⟨written, d', hcreate, hrename, _⟩
  · cases hcreate.symm.trans
      (hfresh.create?_eq_some_iff.mpr ⟨temp, filePlace?_temp_of_folder, rfl⟩)
  · rcases hfresh.create?_eq_some_iff.mp hcreate with ⟨place, hplace, rfl⟩
    cases filePlace?_temp_of_folder.symm.trans hplace
    exact ⟨_, hpublish, (changedAt_put (List.cons_ne_nil _ _) _).here⟩
  · -- No file is moved to where there is a folder.
    rcases of_replace hcreate hrename with ⟨_, new, _, hnew, hreplaced⟩
    cases hfolder.symm.trans hnew
    cases hreplaced.target_free

end Manifest

end CoinCommit
