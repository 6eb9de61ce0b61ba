import CoinCommit.Proofs.Disk.Files

/-!
# What Saving a Secret Leaves Behind

A secret is written to a temporary file beside its target, and that file is then
moved over the target. The folders of the target are made if they are missing.
The temporary name is the target's with something behind it, so the two are never
one place, and whatever was at the temporary name is gone once the secret is at
its target.

If it cannot be moved the temporary file is removed again. So a secret that is not
saved has changed nothing but the temporary name, and has made folders at most.

The mode is the weak point. A temporary file that is made is for its owner alone,
less what is masked. One that is there already keeps the mode it has, whatever that
is, and the mode is then moved to the target together with the secret.

## Main definitions

* `Disk.KeepsAt`: A place that has what it had, or has become a folder.
* `Disk.MoreFolders`: A disk that has this at every place.
* `Disk.SecretSaved`, `Disk.SecretRefused`: What has changed after a secret was
  saved, and after it could not be.

## Theorems

* `PathText.segments_append`: What is behind a text is behind its last segment.
* `Disk.secretTemp_ne`: The temporary file is never at the target.
* `Disk.KeepsAt.file_iff`: Such a place has a file if it had this file before.
* `Disk.moreFolders_makeParent`: To make folders leaves the files alone.
* `Disk.modeAt_ownerOnly_iff`: When a file that is written is for its owner alone.
* `Disk.saveSecret_ok_iff`: When a secret is saved.
* `Disk.saveSecret_outcome`: What has changed when it is saved, and when it is not.
* `Disk.saveSecret_in_new_folder`, `Disk.saveSecret_over_temp`: A secret that is for
  its owner alone, and one that everyone may read.
-/

namespace CoinCommit

namespace PathText

/-- What is written behind a list lengthens its last piece, unless it is cut itself. -/
theorem splitOn_append {behind : List Char} (hbehind : '/' ∉ behind) (cs : List Char) :
    ∃ above last, cs.splitOn '/' = above ++ [last] ∧
      (cs ++ behind).splitOn '/' = above ++ [last ++ behind] := by
  -- On the list in front. Its last piece is the one that grows, wherever the cuts before it are.
  induction cs with
  | nil => exact ⟨[], [], rfl, List.splitOn_eq_singleton hbehind⟩
  | cons c cs ih =>
      rcases ih with ⟨above, last, hcs, hmore⟩
      rw [List.cons_append, List.splitOn_cons_eq_if_modifyHead,
        List.splitOn_cons_eq_if_modifyHead, hcs, hmore]
      -- A cut begins a new first piece, and the last one is further on.
      by_cases hc : (c == '/') = true
      · rw [if_pos hc, if_pos hc]
        exact ⟨[] :: above, last, rfl, rfl⟩
      · rw [if_neg hc, if_neg hc]
        -- The character goes to the first piece, which may be the last one.
        rcases above with _ | ⟨first, rest⟩
        · exact ⟨[], c :: last, rfl, rfl⟩
        · exact ⟨(c :: first) :: rest, last, rfl, rfl⟩

theorem segments_append (s : String) {behind : String} (hbehind : '/' ∉ behind.toList) :
    ∃ above last, (parse s).segments = above ++ [last] ∧
      (parse (s ++ behind)).segments = above ++ [last ++ behind] := by
  rcases splitOn_append hbehind s.toList with ⟨above, last, hs, hmore⟩
  refine ⟨above.map String.ofList, String.ofList last, ?_, ?_⟩
  · rw [parse, hs, List.map_append, List.map_singleton]
  · rw [parse, String.toList_append, hmore, List.map_append, List.map_singleton,
      String.ofList_append, String.ofList_toList]

/-- The last part of a path that does not end in a slash is its last segment. -/
theorem getLast?_segments_of_parts {p : PathText} {part : String}
    (hpart : p.parts.getLast? = some part) (hslash : p.endsInSlash = false) :
    p.segments.getLast? = some part := by
  rw [parts] at hpart
  rcases List.eq_nil_or_concat p.segments with hnil | ⟨above, last, hsegments⟩
  · rw [hnil] at hpart
    cases hpart
  rw [hsegments, List.concat_eq_append, List.filter_append] at hpart
  rw [hsegments, List.concat_eq_append, List.getLast?_concat]
  by_cases hlast : last = ""
  · -- An empty segment at the end is a slash, unless nothing stands before it.
    rw [endsInSlash, hsegments, hlast, List.concat_eq_append, List.getLast?_concat,
      beq_self_eq_true, Bool.and_true, decide_eq_false_iff_not, List.length_append,
      List.length_singleton] at hslash
    have habove : above = [] := List.eq_nil_of_length_eq_zero (by omega)
    rw [habove, hlast] at hpart
    cases hpart
  · rw [List.filter_cons_of_pos (p := fun s => decide (s ≠ "")) (decide_eq_true hlast),
      List.filter_nil, List.getLast?_concat] at hpart
    exact hpart

end PathText

namespace Disk

variable {d d' d'' made written : Disk} {p : PathText} {place q temp new : Place}
  {path tag : String} {mode : Mode} {data : Bytes}

/-- A file is under the last segment of its path. -/
theorem getLast?_of_filePlace? (h : d.filePlace? p = some place) :
    place.getLast? = p.segments.getLast? := by
  rcases filePlace?_eq_some_iff.mp h with ⟨folder, part, hpart, hslash, _, _, _, _, rfl⟩
  rw [PathText.getLast?_segments_of_parts hpart hslash, List.getLast?_concat]

/-- The temporary file is not at the target, be it on one disk or on two. -/
theorem secretTemp_ne (htag : '/' ∉ tag.toList)
    (htemp : d.filePlace? (secretTemp path tag) = some temp)
    (hnew : d'.filePlace? (PathText.parse path) = some new) : temp ≠ new := by
  have hbehind : '/' ∉ (".tmp." ++ tag).toList := by
    rw [String.toList_append, List.mem_append, not_or]
    exact ⟨by decide, htag⟩
  rcases PathText.segments_append path hbehind with ⟨above, last, hpath, hmore⟩
  rw [secretTemp, String.append_assoc] at htemp
  have htempName := getLast?_of_filePlace? htemp
  have hnewName := getLast?_of_filePlace? hnew
  rw [hmore, List.getLast?_concat] at htempName
  rw [hpath, List.getLast?_concat] at hnewName
  rintro rfl
  rw [htempName, Option.some.injEq] at hnewName
  -- At one place the two names would be one, but the temporary one is longer.
  have hlength := congrArg String.length hnewName
  rw [String.length_append, String.length_append, show ".tmp.".length = 5 from rfl] at hlength
  omega

/-- What is at a place is what was there before, or a folder in the place of nothing. -/
def KeepsAt (d d' : Disk) (q : Place) : Prop :=
  d'.node? q = d.node? q ∨ d.node? q = none ∧ d'.node? q = some .folder

theorem KeepsAt.trans (h : KeepsAt d d' q) (h' : KeepsAt d' d'' q) : KeepsAt d d'' q := by
  -- A folder that was made stays, as no step puts anything else in its place.
  rcases h with h | ⟨hnone, hfolder⟩
  · rwa [KeepsAt, ← h]
  rcases h' with h' | ⟨hnone', _⟩
  · exact Or.inr ⟨hnone, h'.trans hfolder⟩
  · cases hfolder.symm.trans hnone'

/-- The files are the ones that were there. -/
theorem KeepsAt.file_iff (h : KeepsAt d d' q) :
    d'.node? q = some (.file mode data) ↔ d.node? q = some (.file mode data) := by
  rcases h with h | ⟨hnone, hfolder⟩
  · rw [h]
  · rw [hnone, hfolder]
    exact iff_of_false nofun nofun

theorem KeepsAt.node?_eq (h : KeepsAt d d' q) (hfree : d'.isFolder q = false) :
    d'.node? q = d.node? q := by
  rcases h with h | ⟨_, hfolder⟩
  · exact h
  · rw [isFolder, hfolder] at hfree
    cases hfree

/-- The second disk has all that the first has, and more folders at most. -/
structure MoreFolders (d d' : Disk) : Prop where
  umask : d'.umask = d.umask
  keepsAt : ∀ q, KeepsAt d d' q

theorem MoreFolders.refl (d : Disk) : MoreFolders d d := ⟨rfl, fun _ => Or.inl rfl⟩

theorem MoreFolders.trans (h : MoreFolders d d') (h' : MoreFolders d' d'') : MoreFolders d d'' :=
  ⟨h'.umask.trans h.umask, fun q => (h.keepsAt q).trans (h'.keepsAt q)⟩

theorem moreFolders_put_folder (hfree : d.node? place = none) :
    MoreFolders d (d.put place .folder) := by
  -- The root is always there, so a place with nothing is another one.
  have hne : place ≠ [] := by
    rintro rfl
    cases hfree
  refine ⟨rfl, fun q => ?_⟩
  by_cases hq : q = place
  · subst hq
    exact Or.inr ⟨hfree, by rw [node?_put d q _ hne, if_pos rfl]⟩
  · exact Or.inl (by rw [node?_put d q _ hne, if_neg hq])

theorem moreFolders_makeFoldersFrom (d : Disk) (here : Place) (parts : List String) :
    MoreFolders d (d.makeFoldersFrom here parts).1 := by
  induction parts generalizing d here with
  | nil => exact .refl d
  | cons part rest ih =>
      rw [makeFoldersFrom]
      rcases hstep : d.step? here part with _ | next
      · exact .refl d
      rcases hnode : d.node? next with _ | node
      · -- A folder is made here, and the others are made over the disk that has it.
        simp only [hnode]
        exact (moreFolders_put_folder hnode).trans (ih _ next)
      · simp only [hnode]
        exact ih d next

/-- To make the folders of a path changes nothing else. -/
theorem moreFolders_makeParent {complete : Bool} (h : d.makeParent p = (made, complete)) :
    MoreFolders d made := by
  rw [← show (d.makeParent p).1 = made from congrArg Prod.fst h, makeParent]
  -- A path without a folder of its own needs none, and then nothing is made.
  rcases p.parent? with _ | parent
  · exact .refl d
  by_cases hempty : parent.isEmpty = true
  · simp only [if_pos hempty]
    exact .refl d
  simp only [if_neg hempty, makeFolders]
  by_cases hallowed : parent.isAllowed = true
  · rw [if_pos hallowed]
    exact moreFolders_makeFoldersFrom d _ _
  · rw [if_neg hallowed]
    exact .refl d

/-- A file that is written is for its owner alone unless one of another mode was there already, as
    long as nothing is masked that the owner needs. -/
theorem modeAt_ownerOnly_iff (hmask : Mode.ownerOnly &&& d.umask = 0)
    (hfree : d.isFolder place = false) :
    d.modeAt place .ownerOnly = .ownerOnly ↔
      ∀ kept content, d.node? place = some (.file kept content) → kept = .ownerOnly := by
  -- The file is new, or it keeps the mode it has. Only a new one gets what is asked for.
  rcases isFolder_eq_false_iff.mp hfree with hnone | ⟨kept, content, hfile⟩
  · rw [modeAt_of_none hnone, hnone]
    refine iff_of_true ?_ nofun
    -- The bits that are asked for are the masked ones among them, which are none, and the others.
    calc
      Mode.ownerOnly &&& ~~~d.umask
          = (Mode.ownerOnly &&& d.umask) ||| (Mode.ownerOnly &&& ~~~d.umask) := by
        rw [hmask]
        exact BitVec.zero_or.symm
      _ = Mode.ownerOnly := by
        rw [← BitVec.and_or_distrib_left, BitVec.or_not_self, BitVec.and_allOnes]
  · rw [modeAt_of_file hfile, hfile]
    constructor
    · rintro rfl kept' content' h
      cases h
      rfl
    · exact fun h => h kept content rfl

/-- A file that was created and is removed again leaves its place empty. -/
theorem of_remove_created (hcreate : d.create? p mode data = some written) :
    ∃ place, (((written.remove? p).getD written).filePlace? p = some place) ∧
      ((written.remove? p).getD written).node? place = none ∧
        ∀ q, q ≠ place → ((written.remove? p).getD written).node? q = d.node? q := by
  rcases create?_eq_some_iff.mp hcreate with ⟨place, hplace, hfree, rfl⟩
  have hne := (of_filePlace? hplace).1
  have hsame : SameFolders d (d.put place (.file (d.modeAt place mode) data)) :=
    sameFolders_put_file hne hfree
  -- Neither the write nor the removal touches a folder, so the path leads to one place throughout.
  have hplace' := (hsame.filePlace? p).trans hplace
  have hnode : (d.put place (.file (d.modeAt place mode) data)).node? place =
      some (.file (d.modeAt place mode) data) := by
    rw [node?_put d place _ hne, if_pos rfl]
  have hremove : (d.put place (.file (d.modeAt place mode) data)).remove? p =
      some ((d.put place (.file (d.modeAt place mode) data)).erase place) := by
    rw [remove?, hplace', Option.bind_eq_bind, Option.bind_some, hnode]
  rw [hremove, Option.getD_some]
  have hsame' := sameFolders_erase hne ((hsame.isFolder place).trans hfree)
  refine ⟨place, (hsame'.filePlace? p).trans hplace', ?_, fun q hq => ?_⟩
  · rw [node?_erase _ place hne, if_pos rfl]
  · rw [node?_erase _ q hne, if_neg hq, node?_put d q _ hne, if_neg hq]

/-- A secret is at its target and no longer at the temporary name. Its mode is that of the file that
    was at the temporary name before, or else that of a new file, so it is for its owner alone
    unless a file of another mode was there. Every other file is what it was, in mode and bytes. -/
structure SecretSaved (d d' : Disk) (temp new : Place) (mode : Mode) (data : Bytes) : Prop where
  saved : d'.node? new = some (.file mode data)
  kept : ∀ mode' content, d.node? temp = some (.file mode' content) → mode = mode'
  made : d.node? temp = none → mode = Mode.ownerOnly &&& ~~~d.umask
  ownerOnly : Mode.ownerOnly &&& d.umask = 0 →
    (mode = .ownerOnly ↔
      ∀ mode' content, d.node? temp = some (.file mode' content) → mode' = .ownerOnly)
  moved : d'.node? temp = none
  elsewhere : ∀ q, q ≠ temp → q ≠ new → KeepsAt d d' q

/-- A secret was not saved. The target is what it was, and so is everything but the temporary name,
    which is what it was or empty. -/
structure SecretRefused (d d' : Disk) (path tag : String) : Prop where
  target : ∀ new, d.filePlace? (PathText.parse path) = some new → KeepsAt d d' new
  temp : ∀ temp, d'.filePlace? (secretTemp path tag) = some temp →
    KeepsAt d d' temp ∨ d'.node? temp = none
  elsewhere : ∀ q, d'.filePlace? (secretTemp path tag) ≠ some q → KeepsAt d d' q

theorem secretRefused_of_keepsAt (h : ∀ q, KeepsAt d d' q) : SecretRefused d d' path tag :=
  ⟨fun new _ => h new, fun temp _ => Or.inl (h temp), fun q _ => h q⟩

/-- A secret is saved if its folder can be made and there can be a file under both names. -/
theorem saveSecret_ok_iff : (d.saveSecret path tag data).2 = .ok () ↔
    ∃ made temp new, d.makeParent (PathText.parse path) = (made, true) ∧
      made.filePlace? (secretTemp path tag) = some temp ∧ made.isFolder temp = false ∧
        made.filePlace? (PathText.parse path) = some new ∧ made.isFolder new = false := by
  constructor
  · intro h
    rcases hsave : d.saveSecret path tag data with ⟨d', answer⟩
    rw [hsave] at h
    cases h
    rcases of_saveSecret hsave with ⟨made, temp, new, hparent, htemp, hnew, hreplaced⟩
    exact ⟨made, temp, new, hparent, htemp, hreplaced.temp_free, hnew, hreplaced.target_free⟩
  · rintro ⟨made, temp, new, hparent, htemp, hfree, hnew, hfree'⟩
    rcases exists_saveSecret data hparent htemp hfree hnew hfree' with ⟨d', hsave⟩
    rw [hsave]

theorem secretSaved_of_ok (htag : '/' ∉ tag.toList)
    (h : d.saveSecret path tag data = (d', .ok ())) :
    ∃ temp new mode, d'.filePlace? (secretTemp path tag) = some temp ∧
      d'.filePlace? (PathText.parse path) = some new ∧ SecretSaved d d' temp new mode data := by
  rcases of_saveSecret h with ⟨made, temp, new, hparent, htemp, hnew, hreplaced⟩
  -- From the temporary name on, the two steps see the disk with the folders that were made.
  have hsame := hreplaced.sameFolders
  have hmore := moreFolders_makeParent hparent
  -- What is at the temporary name was there before the folders were made.
  have hnode := (hmore.keepsAt temp).node?_eq hreplaced.temp_free
  have hfree : d.isFolder temp = false := by
    rw [isFolder, ← hnode]
    exact hreplaced.temp_free
  have hmode : made.modeAt temp .ownerOnly = d.modeAt temp .ownerOnly := by
    rw [modeAt, modeAt, hnode, hmore.umask]
  have hplaced := hreplaced.placed
  rw [hmode] at hplaced
  refine ⟨temp, new, d.modeAt temp .ownerOnly, (hsame.filePlace? _).trans htemp,
    (hsame.filePlace? _).trans hnew, hplaced, fun _ _ h => modeAt_of_file h _,
    fun h => modeAt_of_none h _, fun hmask => modeAt_ownerOnly_iff hmask hfree,
    hreplaced.left (secretTemp_ne htag htemp hnew), fun q hq hq' => ?_⟩
  exact (hmore.keepsAt q).trans (Or.inl (hreplaced.elsewhere q hq hq'))

theorem secretRefused_of_error {e : SecretSaveError} (htag : '/' ∉ tag.toList)
    (h : d.saveSecret path tag data = (d', .error e)) : SecretRefused d d' path tag := by
  -- Four ways to end. The first two have written nothing, and the last one is a success.
  rcases saveSecret_cases d path tag data with ⟨made, hparent, hsave⟩ | ⟨made, hparent, hrest⟩
  · cases h.symm.trans hsave
    exact secretRefused_of_keepsAt (moreFolders_makeParent hparent).keepsAt
  rcases hrest with ⟨_, hsave⟩ | ⟨written, hcreate, _, hsave⟩ | ⟨_, _, _, _, hsave⟩
  · cases h.symm.trans hsave
    exact secretRefused_of_keepsAt (moreFolders_makeParent hparent).keepsAt
  · cases h.symm.trans hsave
    rcases of_remove_created hcreate with ⟨temp, htemp, hnone, helsewhere⟩
    -- Only the folders and the temporary name have been touched.
    have hkeeps : ∀ q, q ≠ temp →
        KeepsAt d ((written.remove? (secretTemp path tag)).getD written) q := fun q hq =>
      ((moreFolders_makeParent hparent).keepsAt q).trans (Or.inl (helsewhere q hq))
    -- The target lies elsewhere, since the temporary name is longer than its own.
    refine ⟨fun new hnew => ?_, fun place hplace => ?_, fun q hq => ?_⟩
    · exact hkeeps new (secretTemp_ne htag htemp hnew).symm
    · cases htemp.symm.trans hplace
      exact Or.inr hnone
    · refine hkeeps q ?_
      rintro rfl
      exact hq htemp
  · cases h.symm.trans hsave

/-- A secret that is saved is at its target, for its owner alone unless a file of another mode was
    at the temporary name; nothing is left there, and every other file is what it was, in mode and
    bytes. A secret that is not saved has changed no file but the one at the temporary name, and has
    left none there. It is saved if its folder can be made and there can be a file under both
    names. -/
theorem saveSecret_outcome (d : Disk) (path tag : String) (data : Bytes)
    (htag : '/' ∉ tag.toList) :
    (∀ d', d.saveSecret path tag data = (d', .ok ()) →
      ∃ temp new mode, d'.filePlace? (secretTemp path tag) = some temp ∧
        d'.filePlace? (PathText.parse path) = some new ∧ SecretSaved d d' temp new mode data) ∧
    (∀ d' e, d.saveSecret path tag data = (d', .error e) → SecretRefused d d' path tag) ∧
    ((d.saveSecret path tag data).2 = .ok () ↔
      ∃ made temp new, d.makeParent (PathText.parse path) = (made, true) ∧
        made.filePlace? (secretTemp path tag) = some temp ∧ made.isFolder temp = false ∧
          made.filePlace? (PathText.parse path) = some new ∧ made.isFolder new = false) :=
  ⟨fun _ h => secretSaved_of_ok htag h, fun _ _ h => secretRefused_of_error htag h,
    saveSecret_ok_iff⟩

end Disk

namespace LeftOver

/-- A working folder in which a temporary file was left, for everyone to read. -/
def disk : Disk :=
  ⟨["work"], 0o022, [(["work"], .folder), (["work", "k.json.tmp.4242"], .file 0o644 [])]⟩

end LeftOver

namespace Disk

open LeftOver

/-- A secret is saved in a folder that is made for it, and is for its owner alone. -/
theorem saveSecret_in_new_folder :
    '/' ∉ "4242".toList ∧ ∃ d', disk.saveSecret "keys/k.json" "4242" [0x7b, 0x7d] = (d', .ok ()) ∧
      SecretSaved disk d' ["work", "keys", "k.json.tmp.4242"] ["work", "keys", "k.json"] 0o600
        [0x7b, 0x7d] := by
  have htag : '/' ∉ "4242".toList := by decide
  rcases saveSecret_outcome disk "keys/k.json" "4242" [0x7b, 0x7d] htag with ⟨hok, _, hiff⟩
  have hanswer : (disk.saveSecret "keys/k.json" "4242" [0x7b, 0x7d]).2 = .ok () :=
    hiff.mpr ⟨_, ["work", "keys", "k.json.tmp.4242"], ["work", "keys", "k.json"], rfl,
      by decide +kernel, by decide +kernel, by decide +kernel, by decide +kernel⟩
  rcases hok _ (Prod.ext rfl hanswer) with ⟨temp, new, mode, htemp, hnew, hsaved⟩
  have htemp' : (disk.saveSecret "keys/k.json" "4242" [0x7b, 0x7d]).1.filePlace?
      (secretTemp "keys/k.json" "4242") = some ["work", "keys", "k.json.tmp.4242"] := by
    decide +kernel
  have hnew' : (disk.saveSecret "keys/k.json" "4242" [0x7b, 0x7d]).1.filePlace?
      (PathText.parse "keys/k.json") = some ["work", "keys", "k.json"] := by
    decide +kernel
  -- The paths lead to one place each, so these are the places of the theorem.
  cases htemp'.symm.trans htemp
  cases hnew'.symm.trans hnew
  -- The folder was not there, so nothing was at the temporary name in it.
  have hmode : mode = .ownerOnly := (hsaved.ownerOnly (by decide)).mpr nofun
  rw [hmode] at hsaved
  exact ⟨htag, _, Prod.ext rfl hanswer, hsaved⟩

/-- A secret is saved over a temporary file that everyone may read, and then everyone may read the
    secret. -/
theorem saveSecret_over_temp :
    disk.node? ["work", "k.json"] = none ∧
      ∃ d', disk.saveSecret "k.json" "4242" [0x7b, 0x7d] = (d', .ok ()) ∧
        d'.node? ["work", "k.json"] = some (.file 0o644 [0x7b, 0x7d]) := by
  -- The parent of a name alone is the working folder, so there is nothing to make.
  have hsaved : ∃ d', disk.saveSecret "k.json" "4242" [0x7b, 0x7d] = (d', .ok ()) :=
    exists_saveSecret _ rfl (show _ = some ["work", "k.json.tmp.4242"] by decide +kernel)
      (by decide +kernel) (show _ = some ["work", "k.json"] by decide +kernel) (by decide +kernel)
  rcases hsaved with ⟨d', hsave⟩
  have hd' : d' = (disk.saveSecret "k.json" "4242" [0x7b, 0x7d]).1 := by rw [hsave]
  refine ⟨by decide, d', hsave, ?_⟩
  rw [hd']
  decide +kernel

end Disk

end CoinCommit
