import CoinCommit.Disk.Save

/-!
# Files Under Their Paths

A path leads from folder to folder, so where it leads depends on the folders
alone. To write a file, to replace one or to take one away changes no folder:
afterwards every path leads where it led before, and a file that is written is
read under the path it was written to. That is why a file can be published, or
saved for its owner, in two steps, under a name of its own first. The second
step finds it where the first has put it, whatever was in either place before,
and even if both paths lead to one place.

## Main definitions

* `Disk.SameFolders`: Two disks with the same folders.
* `Disk.Replaced`: What a file that was moved has changed.
* `Disk.publishTemp`, `Disk.secretTemp`: The paths of the temporary files.

## Theorems

* `Disk.find?_eq_some_iff`, `Disk.read?_eq_some_iff`: What a path names, and
  what is read there.
* `Disk.filePlace?_eq_some_iff`, `Disk.of_filePlace?`: Where a path names a file that
  may have to be made.
* `Disk.SameFolders.walk`, `Disk.SameFolders.filePlace?`: Paths lead to the same
  places over the same folders.
* `Disk.read?_put_file`: A file that is written leaves the others alone.
* `Disk.create?_eq_some_iff`, `Disk.rename?_eq_some_iff`: What the two steps do.
* `Disk.exists_replace`, `Disk.of_replace`, `Disk.Replaced.read?`: When both
  steps succeed, what has changed then, and what is read afterwards.
* `Disk.publish_cases`, `Disk.exists_publish`, `Disk.of_publish`,
  `Disk.read?_of_publish`: The ways in which publishing a file ends, and the same of
  a file that is published.
* `Disk.saveSecret_cases`, `Disk.exists_saveSecret`, `Disk.of_saveSecret`,
  `Disk.read?_of_saveSecret`: The same of a secret that is saved.
-/

namespace CoinCommit

namespace Disk

variable {d d' : Disk} {p : PathText} {place q : Place}

theorem find?_eq_some_iff :
    d.find? p = some q ↔ ¬ (p.isEmpty || !p.isAllowed) = true ∧ d.walk p = some q ∧
      ∃ node, d.node? q = some node ∧ ¬ (p.endsInSlash && node ≠ .folder) = true := by
  rw [find?]
  constructor
  · intro h
    -- Two checks can refuse the path: one of its text, and one of what it leads to.
    by_cases hrefused : (p.isEmpty || !p.isAllowed) = true
    · rw [if_pos hrefused] at h
      cases h
    rw [if_neg hrefused] at h
    rcases Option.bind_eq_some_iff.mp h with ⟨place, hwalk, hrest⟩
    rcases Option.bind_eq_some_iff.mp hrest with ⟨node, hnode, hlast⟩
    by_cases hslash : (p.endsInSlash && node ≠ .folder) = true
    · rw [if_pos hslash] at hlast
      cases hlast
    · rw [if_neg hslash] at hlast
      cases hlast
      exact ⟨hrefused, hwalk, node, hnode, hslash⟩
  · rintro ⟨hrefused, hwalk, node, hnode, hslash⟩
    rw [if_neg hrefused]
    refine Option.bind_eq_some_iff.mpr ⟨q, hwalk, ?_⟩
    refine Option.bind_eq_some_iff.mpr ⟨node, hnode, ?_⟩
    rw [if_neg hslash]

theorem read?_eq_some_iff {content : Bytes} :
    d.read? p = some content ↔
      ∃ q mode, d.find? p = some q ∧ d.node? q = some (.file mode content) := by
  rw [read?]
  constructor
  · intro h
    rcases Option.bind_eq_some_iff.mp h with ⟨q, hfind, hnode⟩
    -- Only a file has bytes to give.
    rcases hfile : d.node? q with _ | _ | ⟨mode, content'⟩
    · rw [hfile] at hnode
      cases hnode
    · rw [hfile] at hnode
      cases hnode
    · rw [hfile] at hnode
      cases hnode
      exact ⟨q, mode, hfind, hfile⟩
  · rintro ⟨q, mode, hfind, hfile⟩
    refine Option.bind_eq_some_iff.mpr ⟨q, hfind, ?_⟩
    rw [hfile]

/-- What is at a place that is no folder is a file, if anything. -/
theorem isFolder_eq_false_iff :
    d.isFolder place = false ↔ d.node? place = none ∨
      ∃ mode content, d.node? place = some (.file mode content) := by
  rw [isFolder]
  rcases d.node? place with _ | _ | ⟨mode, content⟩
  · exact iff_of_true rfl (Or.inl rfl)
  · refine iff_of_false (by decide) ?_
    rintro (h | ⟨_, _, h⟩) <;> cases h
  · exact iff_of_true rfl (Or.inr ⟨mode, content, rfl⟩)

/-- The two disks have the same folders. -/
structure SameFolders (d d' : Disk) : Prop where
  workingFolder : d'.workingFolder = d.workingFolder
  isFolder : ∀ q, d'.isFolder q = d.isFolder q

theorem SameFolders.step? (h : SameFolders d d') : d'.step? = d.step? := by
  funext here part
  rw [Disk.step?, Disk.step?, h.isFolder]

theorem SameFolders.walkFrom (h : SameFolders d d') (here : Place) (parts : List String) :
    d'.walkFrom here parts = d.walkFrom here parts := by
  rw [Disk.walkFrom, Disk.walkFrom, h.step?]

theorem SameFolders.origin (h : SameFolders d d') (p : PathText) : d'.origin p = d.origin p := by
  rw [Disk.origin, Disk.origin, h.workingFolder]

theorem SameFolders.walk (h : SameFolders d d') (p : PathText) : d'.walk p = d.walk p := by
  rw [Disk.walk, Disk.walk, h.walkFrom, h.origin]

theorem SameFolders.filePlace? (h : SameFolders d d') (p : PathText) :
    d'.filePlace? p = d.filePlace? p := by
  simp only [Disk.filePlace?, h.walkFrom, h.origin, h.isFolder]

section

variable {mode asked : Mode} {content : Bytes}

theorem sameFolders_put_file (hne : place ≠ []) (hfile : d.isFolder place = false) :
    SameFolders d (d.put place (.file mode content)) := by
  refine ⟨rfl, fun q => ?_⟩
  rw [isFolder, node?_put d q _ hne]
  -- At the place itself there was no folder and is none now.
  by_cases hq : q = place
  · rw [if_pos hq, hq, hfile]
    rfl
  · rw [if_neg hq, isFolder]

theorem sameFolders_erase (hne : place ≠ []) (hfile : d.isFolder place = false) :
    SameFolders d (d.erase place) := by
  refine ⟨rfl, fun q => ?_⟩
  rw [isFolder, node?_erase d q hne]
  by_cases hq : q = place
  · rw [if_pos hq, hq, hfile]
    rfl
  · rw [if_neg hq, isFolder]

/-- A file that is written, in the place of none or of a file, leaves the other files alone. -/
theorem read?_put_file (hne : place ≠ []) (hfile : d.isFolder place = false)
    (hfind : d.find? p = some q) (hq : q ≠ place) {text : Bytes} (hread : d.read? p = some text) :
    (d.put place (.file mode content)).read? p = some text := by
  rcases read?_eq_some_iff.mp hread with ⟨q', mode', hfind', hnode⟩
  cases hfind.symm.trans hfind'
  -- The walk looks at folders only, and what it leads to lies elsewhere.
  have hsame : (d.put place (.file mode content)).node? q = d.node? q := by
    rw [node?_put d q _ hne, if_neg hq]
  -- So the same walk leads to the same node.
  refine read?_eq_some_iff.mpr ⟨q, mode', ?_, hsame.trans hnode⟩
  rw [find?_eq_some_iff, (sameFolders_put_file hne hfile).walk, hsame]
  exact find?_eq_some_iff.mp hfind

theorem step?_name {here : Place} {part : String} (hhere : d.isFolder here = true)
    (hname : PathText.isName part = true) : d.step? here part = some (here ++ [part]) := by
  have hparts := hname
  simp only [PathText.isName, Bool.and_eq_true, decide_eq_true_eq] at hparts
  -- A name is neither of the two parts that do not go down.
  rcases hparts with ⟨⟨⟨_, hdot⟩, hdots⟩, _⟩
  rw [step?, hhere, Bool.not_true, if_neg Bool.false_ne_true, if_neg hdot, if_neg hdots,
    if_pos hname]

/-- A path names a file by a last part that is a name, in the folder to which the others lead. -/
theorem filePlace?_eq_some_iff :
    d.filePlace? p = some place ↔ ∃ folder part, p.parts.getLast? = some part ∧
      p.endsInSlash = false ∧ p.isAllowed = true ∧ PathText.isName part = true ∧
        d.walkFrom (d.origin p) p.parts.dropLast = some folder ∧ d.isFolder folder = true ∧
          place = folder ++ [part] := by
  rw [filePlace?]
  constructor
  · intro h
    rcases Option.bind_eq_some_iff.mp h with ⟨part, hpart, hrest⟩
    by_cases hrefused : (p.endsInSlash || !p.isAllowed || !PathText.isName part) = true
    · rw [if_pos hrefused] at hrest
      cases hrest
    rw [if_neg hrefused] at hrest
    rcases Option.bind_eq_some_iff.mp hrest with ⟨folder, hwalk, hlast⟩
    by_cases hfolder : d.isFolder folder = true
    · rw [if_pos hfolder] at hlast
      cases hlast
      -- Three of the conditions were checked as one.
      simp only [Bool.or_eq_true, not_or, Bool.not_eq_true, Bool.not_eq_false'] at hrefused
      rcases hrefused with ⟨⟨hslash, hallowed⟩, hname⟩
      exact ⟨folder, part, hpart, hslash, hallowed, hname, hwalk, hfolder, rfl⟩
    · rw [if_neg hfolder] at hlast
      cases hlast
  · rintro ⟨folder, part, hpart, hslash, hallowed, hname, hwalk, hfolder, rfl⟩
    refine Option.bind_eq_some_iff.mpr ⟨part, hpart, ?_⟩
    rw [hslash, hallowed, hname, if_neg (by decide)]
    refine Option.bind_eq_some_iff.mpr ⟨folder, hwalk, ?_⟩
    rw [if_pos hfolder]

/-- A path that names a file, be it there or not, leads to it and to no folder of that name. -/
theorem of_filePlace? (h : d.filePlace? p = some place) :
    place ≠ [] ∧ p.endsInSlash = false ∧ p.isAllowed = true ∧ d.walk p = some place := by
  rcases filePlace?_eq_some_iff.mp h with
    ⟨folder, part, hpart, hslash, hallowed, hname, hwalk, hfolder, rfl⟩
  refine ⟨List.append_ne_nil_of_right_ne_nil _ (List.cons_ne_nil _ _), hslash, hallowed, ?_⟩
  -- The last part is a name, so the walk goes one step down.
  rcases List.getLast?_eq_some_iff.mp hpart with ⟨above, hparts⟩
  rw [hparts, List.dropLast_concat] at hwalk
  rw [walk, walkFrom, hparts, List.foldlM_append]
  refine Option.bind_eq_some_iff.mpr ⟨folder, hwalk, ?_⟩
  rw [List.foldlM_cons, step?_name hfolder hname]
  rfl

theorem isEmpty_of_filePlace? {path : String}
    (h : d.filePlace? (PathText.parse path) = some place) :
    (PathText.parse path).isEmpty = false := by
  rw [PathText.isEmpty, PathText.text_parse, beq_eq_false_iff_ne]
  rintro rfl
  cases h

/-- A file is read under the path of its place. -/
theorem read?_of_filePlace? {path : String}
    (hplace : d.filePlace? (PathText.parse path) = some place)
    (hnode : d.node? place = some (.file mode content)) :
    d.read? (PathText.parse path) = some content := by
  rcases of_filePlace? hplace with ⟨_, hslash, hallowed, hwalk⟩
  have hempty := isEmpty_of_filePlace? hplace
  -- The path is not refused for its text, nor for what is there, as it does not ask for a folder.
  refine read?_eq_some_iff.mpr ⟨place, mode, find?_eq_some_iff.mpr ⟨?_, hwalk, _, hnode, ?_⟩, hnode⟩
  · rw [hempty, hallowed]
    exact Bool.false_ne_true
  · rw [hslash, Bool.false_and]
    exact Bool.false_ne_true

/-- A file that is there keeps its mode, whatever mode is asked for. -/
theorem modeAt_of_file (h : d.node? place = some (.file mode content)) (asked : Mode) :
    d.modeAt place asked = mode := by
  rw [modeAt, h]

/-- A new file has the mode that is asked for, less the masked bits. -/
theorem modeAt_of_none (h : d.node? place = none) (asked : Mode) :
    d.modeAt place asked = asked &&& ~~~d.umask := by
  rw [modeAt, h]

/-- A file is created in the place of none or of a file. -/
theorem create?_eq_some_iff :
    d.create? p asked content = some d' ↔ ∃ place, d.filePlace? p = some place ∧
      d.isFolder place = false ∧ d' = d.put place (.file (d.modeAt place asked) content) := by
  rw [create?]
  constructor
  · intro h
    rcases Option.bind_eq_some_iff.mp h with ⟨place, hplace, hrest⟩
    by_cases hfolder : d.isFolder place = true
    · rw [if_pos hfolder] at hrest
      cases hrest
    · rw [if_neg hfolder, Option.some.injEq] at hrest
      exact ⟨place, hplace, Bool.eq_false_iff.mpr hfolder, hrest.symm⟩
  · rintro ⟨place, hplace, hfree, rfl⟩
    rw [hplace, Option.bind_eq_bind, Option.bind_some, hfree, if_neg Bool.false_ne_true]

/-- A file is moved to the place of none or of a file. -/
theorem rename?_eq_some_iff {source target : PathText} :
    d.rename? source target = some d' ↔
      ∃ old new mode content, d.filePlace? source = some old ∧ d.filePlace? target = some new ∧
        d.node? old = some (.file mode content) ∧ d.isFolder new = false ∧
          d' = (d.erase old).put new (.file mode content) := by
  constructor
  · intro h
    rw [rename?] at h
    rcases Option.bind_eq_some_iff.mp h with ⟨old, hold, hrest⟩
    rcases Option.bind_eq_some_iff.mp hrest with ⟨new, hnew, hmove⟩
    -- What is moved has to be a file, and no folder may be in its way.
    rcases hsource : d.node? old with _ | _ | ⟨mode, content⟩
    · simp only [hsource] at hmove
      cases hmove
    · simp only [hsource] at hmove
      cases hmove
    · rcases htarget : d.node? new with _ | _ | ⟨mode', content'⟩
      · simp only [hsource, htarget, Option.some.injEq] at hmove
        exact ⟨old, new, mode, content, hold, hnew, hsource,
          isFolder_eq_false_iff.mpr (Or.inl htarget), hmove.symm⟩
      · simp only [hsource, htarget] at hmove
        cases hmove
      · simp only [hsource, htarget, Option.some.injEq] at hmove
        exact ⟨old, new, mode, content, hold, hnew, hsource,
          isFolder_eq_false_iff.mpr (Or.inr ⟨mode', content', htarget⟩), hmove.symm⟩
  · rintro ⟨old, new, mode, content, hold, hnew, hnode, hfree, rfl⟩
    rcases isFolder_eq_false_iff.mp hfree with htarget | ⟨mode', content', htarget⟩
    · simp only [rename?, hold, hnew, Option.bind_eq_bind, Option.bind_some, hnode, htarget]
    · simp only [rename?, hold, hnew, Option.bind_eq_bind, Option.bind_some, hnode, htarget]

/-- A file that was made at one place has been moved to another. Nothing is left at the first, and
    nothing else is touched. -/
structure Replaced (d d' : Disk) (temp new : Place) (mode : Mode) (content : Bytes) : Prop where
  workingFolder : d'.workingFolder = d.workingFolder
  umask : d'.umask = d.umask
  temp_free : d.isFolder temp = false
  target_free : d.isFolder new = false
  placed : d'.node? new = some (.file mode content)
  left : temp ≠ new → d'.node? temp = none
  elsewhere : ∀ q, q ≠ temp → q ≠ new → d'.node? q = d.node? q

theorem Replaced.sameFolders {temp new : Place} (h : Replaced d d' temp new mode content) :
    SameFolders d d' := by
  refine ⟨h.workingFolder, fun q => ?_⟩
  rw [isFolder]
  -- Only two places differ, and neither was a folder or has become one.
  by_cases hnew : q = new
  · rw [hnew, h.placed, h.target_free]
    rfl
  by_cases htemp : q = temp
  · rw [htemp, h.left (htemp ▸ hnew), h.temp_free]
    rfl
  · rw [h.elsewhere q htemp hnew, isFolder]

/-- A file is replaced in two steps if there can be one under both names. -/
theorem exists_replace {source target : PathText} {temp new : Place} (asked : Mode)
    (content : Bytes) (htemp : d.filePlace? source = some temp) (hfree : d.isFolder temp = false)
    (hnew : d.filePlace? target = some new) (hfree' : d.isFolder new = false) :
    ∃ written d', d.create? source asked content = some written ∧
      written.rename? source target = some d' := by
  have hcreate : d.create? source asked content =
      some (d.put temp (.file (d.modeAt temp asked) content)) :=
    create?_eq_some_iff.mpr ⟨temp, htemp, hfree, rfl⟩
  -- The first step leaves the folders alone, so the second finds both places as they were.
  have hsame : SameFolders d (d.put temp (.file (d.modeAt temp asked) content)) :=
    sameFolders_put_file (of_filePlace? htemp).1 hfree
  refine ⟨_, _, hcreate, rename?_eq_some_iff.mpr ⟨temp, new, d.modeAt temp asked, content,
    (hsame.filePlace? _).trans htemp, (hsame.filePlace? _).trans hnew, ?_,
    (hsame.isFolder new).trans hfree', rfl⟩⟩
  rw [node?_put d temp _ (of_filePlace? htemp).1, if_pos rfl]

/-- A file that is created under one name and moved to another is replaced, with the mode that it
    was created with. -/
theorem of_replace {written : Disk} {source target : PathText}
    (hcreate : d.create? source asked content = some written)
    (hrename : written.rename? source target = some d') :
    ∃ temp new, d.filePlace? source = some temp ∧ d.filePlace? target = some new ∧
      Replaced d d' temp new (d.modeAt temp asked) content := by
  rcases create?_eq_some_iff.mp hcreate with ⟨temp, htemp, hfree, rfl⟩
  rcases rename?_eq_some_iff.mp hrename with
    ⟨old, new, mode', moved, hold, hnew, hnode, hfree', rfl⟩
  have htemp' := (of_filePlace? htemp).1
  have hnew' := (of_filePlace? hnew).1
  have hsame : SameFolders d (d.put temp (.file (d.modeAt temp asked) content)) :=
    sameFolders_put_file htemp' hfree
  -- What is moved is what was written, from where it was written.
  rw [hsame.filePlace?, htemp, Option.some.injEq] at hold
  subst hold
  rw [node?_put d temp _ htemp', if_pos rfl] at hnode
  cases hnode
  refine ⟨temp, new, htemp, (hsame.filePlace? _).symm.trans hnew, rfl, rfl, hfree,
    (hsame.isFolder new).symm.trans hfree', ?_, fun hne => ?_, fun q hq hq' => ?_⟩
  · -- What was put last, what was erased before it, and what was never touched.
    rw [node?_put _ new _ hnew', if_pos rfl]
  · rw [node?_put _ temp _ hnew', if_neg hne, node?_erase _ temp htemp', if_pos rfl]
  · rw [node?_put _ q _ hnew', if_neg hq', node?_erase _ q htemp', if_neg hq,
      node?_put _ q _ htemp', if_neg hq]

/-- A file that was moved is read under the path it was moved to. -/
theorem Replaced.read? {temp new : Place} {path : String}
    (h : Replaced d d' temp new mode content)
    (hnew : d.filePlace? (PathText.parse path) = some new) :
    d'.read? (PathText.parse path) = some content :=
  read?_of_filePlace? ((h.sameFolders.filePlace? _).trans hnew) h.placed

/-- The path of the temporary file of a file that is published. -/
def publishTemp (path tag : String) : PathText :=
  (publishFolder (PathText.parse path)).join (publishTempName tag)

/-- A file that is published is not created, or created and not moved, or created and moved. -/
theorem publish_cases (d : Disk) (path tag : String) (data : Bytes) :
    (d.create? (publishTemp path tag) Mode.everyone data = none ∧
      d.publish path tag data = (d, .error .createTemp)) ∨
    (∃ written, d.create? (publishTemp path tag) Mode.everyone data = some written ∧
      written.rename? (publishTemp path tag) (PathText.parse path) = none ∧
        d.publish path tag data = (written, .error .rename)) ∨
    ∃ written d', d.create? (publishTemp path tag) Mode.everyone data = some written ∧
      written.rename? (publishTemp path tag) (PathText.parse path) = some d' ∧
        d.publish path tag data = (d', .ok ()) := by
  unfold publish publishTemp
  rcases hcreate : d.create? ((publishFolder (PathText.parse path)).join (publishTempName tag))
    Mode.everyone data with _ | written
  · exact Or.inl ⟨rfl, by simp only [hcreate]⟩
  rcases hrename : written.rename? ((publishFolder (PathText.parse path)).join
    (publishTempName tag)) (PathText.parse path) with _ | d'
  · exact Or.inr (Or.inl ⟨written, rfl, hrename, by simp only [hcreate, hrename]⟩)
  · exact Or.inr (Or.inr ⟨written, d', rfl, hrename, by simp only [hcreate, hrename]⟩)

/-- A file is published if there can be one under both names. -/
theorem exists_publish {path tag : String} {temp new : Place} (data : Bytes)
    (htemp : d.filePlace? (publishTemp path tag) = some temp)
    (hfree : d.isFolder temp = false) (hnew : d.filePlace? (PathText.parse path) = some new)
    (hfree' : d.isFolder new = false) : ∃ d', d.publish path tag data = (d', .ok ()) := by
  rcases exists_replace Mode.everyone data htemp hfree hnew hfree' with
    ⟨written, d', hcreate, hrename⟩
  rcases publish_cases d path tag data with
    ⟨hnone, _⟩ | ⟨_, hcreate', hnone, _⟩ | ⟨_, saved, _, _, hpublish⟩
  · cases hcreate.symm.trans hnone
  · cases hcreate.symm.trans hcreate'
    cases hrename.symm.trans hnone
  · exact ⟨saved, hpublish⟩

/-- A file that is published has been replaced. -/
theorem of_publish {path tag : String} {data : Bytes}
    (h : d.publish path tag data = (d', .ok ())) :
    ∃ temp new, d.filePlace? (publishTemp path tag) = some temp ∧
      d.filePlace? (PathText.parse path) = some new ∧
        Replaced d d' temp new (d.modeAt temp Mode.everyone) data := by
  -- Of the three ends only one is a success, and it has gone through both steps.
  rcases publish_cases d path tag data with
    ⟨_, hpublish⟩ | ⟨_, _, _, hpublish⟩ | ⟨_, _, hcreate, hrename, hpublish⟩
  · cases h.symm.trans hpublish
  · cases h.symm.trans hpublish
  · cases h.symm.trans hpublish
    exact of_replace hcreate hrename

/-- What is published is read under the path it was published to. -/
theorem read?_of_publish {path tag : String} {data : Bytes}
    (h : d.publish path tag data = (d', .ok ())) : d'.read? (PathText.parse path) = some data := by
  rcases of_publish h with ⟨_, _, _, hnew, hreplaced⟩
  exact hreplaced.read? hnew

/-- The path of the temporary file of a secret that is saved. -/
def secretTemp (path tag : String) : PathText := PathText.parse (path ++ ".tmp." ++ tag)

/-- The folder of a secret that is saved is not made, or the file is not created in it, or created
    and not moved, or created and moved. -/
theorem saveSecret_cases (d : Disk) (path tag : String) (data : Bytes) :
    (∃ made, d.makeParent (PathText.parse path) = (made, false) ∧
      d.saveSecret path tag data = (made, .error .createParent)) ∨
    ∃ made, d.makeParent (PathText.parse path) = (made, true) ∧
      (made.create? (secretTemp path tag) Mode.ownerOnly data = none ∧
        d.saveSecret path tag data = (made, .error .writeTemp) ∨
      (∃ written, made.create? (secretTemp path tag) Mode.ownerOnly data = some written ∧
        written.rename? (secretTemp path tag) (PathText.parse path) = none ∧
          d.saveSecret path tag data =
            ((written.remove? (secretTemp path tag)).getD written, .error .renameTemp)) ∨
      ∃ written d', made.create? (secretTemp path tag) Mode.ownerOnly data = some written ∧
        written.rename? (secretTemp path tag) (PathText.parse path) = some d' ∧
          d.saveSecret path tag data = (d', .ok ())) := by
  -- One case for each step that may fail, in their order.
  unfold saveSecret secretTemp
  rcases hparent : d.makeParent (PathText.parse path) with ⟨made, _ | _⟩
  · exact Or.inl ⟨made, rfl, by simp only [hparent]⟩
  refine Or.inr ⟨made, rfl, ?_⟩
  rcases hcreate : made.create? (PathText.parse (path ++ ".tmp." ++ tag)) Mode.ownerOnly data with
    _ | written
  · exact Or.inl ⟨rfl, by simp only [hparent, hcreate]⟩
  rcases hrename : written.rename? (PathText.parse (path ++ ".tmp." ++ tag))
    (PathText.parse path) with _ | d'
  · exact Or.inr (Or.inl ⟨written, rfl, hrename, by simp only [hparent, hcreate, hrename]⟩)
  · exact Or.inr (Or.inr ⟨written, d', rfl, hrename, by simp only [hparent, hcreate, hrename]⟩)

/-- A secret is saved if there is a folder for it and can be a file under both names. -/
theorem exists_saveSecret {path tag : String} {temp new : Place} (data : Bytes)
    (hparent : d.makeParent (PathText.parse path) = (d', true))
    (htemp : d'.filePlace? (secretTemp path tag) = some temp)
    (hfree : d'.isFolder temp = false) (hnew : d'.filePlace? (PathText.parse path) = some new)
    (hfree' : d'.isFolder new = false) : ∃ saved, d.saveSecret path tag data = (saved, .ok ()) := by
  rcases exists_replace Mode.ownerOnly data htemp hfree hnew hfree' with
    ⟨written, renamed, hcreate, hrename⟩
  rcases saveSecret_cases d path tag data with ⟨_, hparent', _⟩ | ⟨_, hparent', hrest⟩
  · -- The folder is the one that was made, and then the two steps can be taken in it.
    cases hparent.symm.trans hparent'
  cases hparent.symm.trans hparent'
  rcases hrest with ⟨hnone, _⟩ | ⟨_, hcreate', hnone, _⟩ | ⟨_, saved, _, _, hsave⟩
  · cases hcreate.symm.trans hnone
  · cases hcreate.symm.trans hcreate'
    cases hrename.symm.trans hnone
  · exact ⟨saved, hsave⟩

/-- A secret that is saved has been replaced, once the folders for it were there. -/
theorem of_saveSecret {path tag : String} {data : Bytes}
    (h : d.saveSecret path tag data = (d', .ok ())) :
    ∃ made temp new, d.makeParent (PathText.parse path) = (made, true) ∧
      made.filePlace? (secretTemp path tag) = some temp ∧
        made.filePlace? (PathText.parse path) = some new ∧
          Replaced made d' temp new (made.modeAt temp Mode.ownerOnly) data := by
  -- Of the four ends only one is a success, and it has gone through all three steps.
  rcases saveSecret_cases d path tag data with ⟨_, _, hsave⟩ | ⟨made, hparent, hrest⟩
  · cases h.symm.trans hsave
  rcases hrest with ⟨_, hsave⟩ | ⟨_, _, _, hsave⟩ | ⟨_, _, hcreate, hrename, hsave⟩
  · cases h.symm.trans hsave
  · cases h.symm.trans hsave
  · cases h.symm.trans hsave
    rcases of_replace hcreate hrename with ⟨temp, new, hreplaced⟩
    exact ⟨made, temp, new, hparent, hreplaced⟩

/-- A secret that is saved is read under the path it was saved to. -/
theorem read?_of_saveSecret {path tag : String} {data : Bytes}
    (h : d.saveSecret path tag data = (d', .ok ())) :
    d'.read? (PathText.parse path) = some data := by
  rcases of_saveSecret h with ⟨_, _, _, _, _, hnew, hreplaced⟩
  exact hreplaced.read? hnew

end

end Disk

end CoinCommit
