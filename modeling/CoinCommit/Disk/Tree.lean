import CoinCommit.Bytes.Basic
import CoinCommit.Disk.Path

/-!
# Files and Folders

A `Disk` is a tree of folders and files with a working folder. A file has bytes
and a mode, which says who may do what with it. The mode is decided when the file
is created: whoever creates it asks for one, and the bits that are masked are
taken away. To write to the file again leaves its mode alone, and when it is moved
the mode moves with it. The operations are those of a file system: each either
takes effect or leaves the disk as it was. None is refused for want of permission.

## Main definitions

* `Place`: Names from the root.
* `Mode`: The bits that say who may do what with a file.
* `Node`, `Disk`: A file or folder, and the tree of them.
* `Disk.modeAt`: The mode that a file has once it is written.
* `Disk.walk`: The place that a path leads to.
* `Disk.read?`, `Disk.isFile`: What is at a path.
* `Disk.create?`, `Disk.rename?`, `Disk.remove?`: Changes to files.
* `Disk.makeFolders`: The folders of a path, made where they are missing.

## Theorems

* `Disk.node?_put`, `Disk.node?_erase`: What the two basic changes do to what is
  at each place.
-/

namespace CoinCommit

/-- The place of a file or folder: the names that lead to it from the root. -/
abbrev Place := List String

/-- The mode of a file: three bits each for its owner, its group and everyone else, and the three
    special bits above them. -/
abbrev Mode := BitVec 12

/-- The owner may read and write, and no one else may do anything. -/
def Mode.ownerOnly : Mode := 0o600

/-- Everyone may read and write. -/
def Mode.everyone : Mode := 0o666

/-- A folder, or a file with its mode and its bytes. -/
inductive Node where
  | folder
  | file (mode : Mode) (content : Bytes)
deriving DecidableEq

/-- Files and folders by place, with the working folder and the bits that new files do not get. The
    root is a folder without being listed. -/
structure Disk where
  workingFolder : Place
  umask : Mode
  nodes : List (Place × Node)

namespace Disk

/-- What is at a place. -/
def node? (d : Disk) : Place → Option Node
  | [] => some .folder
  | place => d.nodes.lookup place

/-- Whether a place is a folder. -/
def isFolder (d : Disk) (place : Place) : Bool := d.node? place == some .folder

/-- The disk with a node at a place, instead of what was there. -/
def put (d : Disk) (place : Place) (node : Node) : Disk :=
  { d with nodes := (place, node) :: d.nodes.filter fun entry => entry.1 ≠ place }

/-- The disk without what is at a place. -/
def erase (d : Disk) (place : Place) : Disk :=
  { d with nodes := d.nodes.filter fun entry => entry.1 ≠ place }

/-- Taking out what is at one place changes no look-up of another place. -/
theorem lookup_filter_ne (nodes : List (Place × Node)) (place place' : Place) :
    (nodes.filter fun entry => entry.1 ≠ place).lookup place' =
      if place' = place then none else nodes.lookup place' := by
  induction nodes with
  | nil => simp only [List.filter_nil, List.lookup_nil, ite_self]
  | cons entry rest ih =>
      obtain ⟨name, node⟩ := entry
      by_cases hn : name = place
      · -- This entry goes; it was found only by looking for its own place.
        by_cases hp : place' = place
        · simp only [List.filter_cons, hn, hp, ne_eq, not_true_eq_false, decide_false,
            Bool.false_eq_true, if_false, if_true] at ih ⊢
          exact ih
        · have hb : (place' == place) = false := beq_eq_false_iff_ne.mpr hp
          simp only [List.filter_cons, hn, hp, ne_eq, not_true_eq_false, decide_false,
            Bool.false_eq_true, if_false, List.lookup_cons, hb] at ih ⊢
          exact ih
      · simp only [List.filter_cons, hn, ne_eq, not_false_eq_true, decide_true, if_true,
          List.lookup_cons, ih]
        by_cases hp : place' = name
        · have hb : (place' == name) = true := beq_iff_eq.mpr hp
          have hne : ¬ place' = place := fun he => hn (hp.symm.trans he)
          simp only [hb, hne, if_false]
        · have hb : (place' == name) = false := beq_eq_false_iff_ne.mpr hp
          simp only [hb]

/-- A place other than the root has what was put there, and every other place what it had. -/
theorem node?_put (d : Disk) {place : Place} (place' : Place) (node : Node) (h : place ≠ []) :
    (d.put place node).node? place' = if place' = place then some node else d.node? place' := by
  cases place' with
  | nil =>
      rw [if_neg fun he => h he.symm]
      rfl
  | cons name names =>
      by_cases he : name :: names = place
      · have hb : (name :: names == place) = true := beq_iff_eq.mpr he
        rw [if_pos he]
        simp only [node?, put, List.lookup_cons, hb]
      · have hb : (name :: names == place) = false := beq_eq_false_iff_ne.mpr he
        rw [if_neg he]
        simp only [node?, put, List.lookup_cons, hb, lookup_filter_ne, if_neg he]

/-- Nothing is left at a place that is erased, and every other place keeps what it has. -/
theorem node?_erase (d : Disk) {place : Place} (place' : Place) (h : place ≠ []) :
    (d.erase place).node? place' = if place' = place then none else d.node? place' := by
  cases place' with
  | nil =>
      rw [if_neg fun he => h he.symm]
      rfl
  | cons name names => simp only [node?, erase, lookup_filter_ne]

/-- The place after one part of a path; absent if the path cannot go on from here. -/
def step? (d : Disk) (here : Place) (part : String) : Option Place :=
  if !d.isFolder here then none
  else if part = "." then some here
  else if part = ".." then some here.dropLast
  else if PathText.isName part then some (here ++ [part])
  else none

/-- Where a path starts. -/
def origin (d : Disk) (p : PathText) : Place := if p.absolute then [] else d.workingFolder

/-- The place to which parts lead from a place. -/
def walkFrom (d : Disk) (here : Place) (parts : List String) : Option Place :=
  parts.foldlM d.step? here

/-- The place that a path leads to, whether or not anything is there. -/
def walk (d : Disk) (p : PathText) : Option Place := d.walkFrom (d.origin p) p.parts

/-- The place of what a path names; the empty path names nothing, and a path that ends with a slash
    names folders only. -/
def find? (d : Disk) (p : PathText) : Option Place := do
  if p.isEmpty || !p.isAllowed then none
  else
    let place ← d.walk p
    let node ← d.node? place
    if p.endsInSlash && node ≠ .folder then none else some place

/-- The bytes of the file that a path names. -/
def read? (d : Disk) (p : PathText) : Option Bytes := do
  let place ← d.find? p
  match d.node? place with
  | some (.file _ content) => some content
  | _ => none

/-- Whether a path names a file. -/
def isFile (d : Disk) (p : PathText) : Bool := (d.read? p).isSome

/-- The place at which a path names a file that may still have to be made: its folder is there, and
    its last part is a name. -/
def filePlace? (d : Disk) (p : PathText) : Option Place := do
  let part ← p.parts.getLast?
  if p.endsInSlash || !p.isAllowed || !PathText.isName part then none
  else
    let folder ← d.walkFrom (d.origin p) p.parts.dropLast
    if d.isFolder folder then some (folder ++ [part]) else none

/-- The mode that a file at a place has once it is written: its own if it is there already, and else
    the one that is asked for, less the bits that new files do not get. -/
def modeAt (d : Disk) (place : Place) (asked : Mode) : Mode :=
  match d.node? place with
  | some (.file kept _) => kept
  | _ => asked &&& ~~~d.umask

/-- The disk with these bytes in the file that a path names, which is made with the mode that is
    asked for if it is not there; a folder is not overwritten. -/
def create? (d : Disk) (p : PathText) (asked : Mode) (content : Bytes) : Option Disk := do
  let place ← d.filePlace? p
  if d.isFolder place then none else some (d.put place (.file (d.modeAt place asked) content))

/-- The disk after a file is moved to where another path names one, over a file that is there. -/
def rename? (d : Disk) (source target : PathText) : Option Disk := do
  let sourcePlace ← d.filePlace? source
  let targetPlace ← d.filePlace? target
  match d.node? sourcePlace, d.node? targetPlace with
  -- The file arrives with the mode it had under its old name.
  | some (.file mode content), some (.file _ _)
  | some (.file mode content), none =>
      some ((d.erase sourcePlace).put targetPlace (.file mode content))
  | _, _ => none

/-- The disk without the file that a path names. -/
def remove? (d : Disk) (p : PathText) : Option Disk := do
  let place ← d.filePlace? p
  match d.node? place with
  | some (.file _ _) => some (d.erase place)
  | _ => none

/-- The disk with the folders of a path from a place on, and whether all of them are there at the
    end. Folders that were made stay even if a later one cannot be made. -/
def makeFoldersFrom (d : Disk) (here : Place) : List String → Disk × Bool
  | [] => (d, d.isFolder here)
  | part :: rest =>
      match d.step? here part with
      | none => (d, false)
      | some next =>
          match d.node? next with
          | none => (d.put next .folder).makeFoldersFrom next rest
          | some _ => d.makeFoldersFrom next rest

/-- The disk with the folders of a path, and whether all of them are there. -/
def makeFolders (d : Disk) (p : PathText) : Disk × Bool :=
  if p.isAllowed then d.makeFoldersFrom (d.origin p) p.parts else (d, false)

end Disk

end CoinCommit
