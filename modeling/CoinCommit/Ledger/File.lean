import CoinCommit.Disk.Tree
import CoinCommit.Ledger.Image

/-!
# Opening a Chain State

A chain state is opened at a path. Opening one that is not there makes an empty
one, which readers must not do: they open only what exists, so that a mistyped
path is an error and not an empty chain. A chain state that is open is locked
against being opened again, under whatever path.

## Main definitions

* `OpenError`: Why a path cannot be opened.
* `Disk.openTable`, `Disk.openExistingTable`: Opening, with and without making.
* `Disk.storeTable`: The disk with a table written to its place.
-/

namespace CoinCommit

/-- Why a path cannot be opened as a chain state: no file is there, or it is not a chain state or
    is open already. -/
inductive OpenError where
  | notFound (path : String)
  | refused
deriving DecidableEq

/-- The text of the error. -/
def OpenError.message : OpenError → String
  | .notFound path => "store not found: " ++ path
  | .refused => "redb open"

/-- A table together with the place of its file. -/
structure OpenTable where
  place : Place
  table : Table

namespace Disk

/-- The disk with a table in the file at a place. A file that is there keeps its mode. -/
def storeTable (d : Disk) (place : Place) (t : Table) : Disk :=
  d.put place (.file (d.modeAt place Mode.everyone) t.toImage)

/-- Opens the chain state at a path and makes an empty one if there is no file. The places that
    are open already are locked. -/
def openTable (d : Disk) (locked : List Place) (path : String) :
    Except OpenError (Disk × OpenTable) :=
  match d.filePlace? (PathText.parse path) with
  | none => .error .refused
  | some place =>
      -- A lock holds for the place, so another path to the same file does not get around it.
      if locked.contains place then .error .refused
      else
        match d.node? place with
        | none => .ok (d.storeTable place Table.empty, ⟨place, Table.empty⟩)
        | some .folder => .error .refused
        | some (.file _ content) =>
            match Table.ofImage? content with
            | some t => .ok (d.storeTable place t, ⟨place, t⟩)
            | none => .error .refused

/-- Opens the chain state at a path that names a file. -/
def openExistingTable (d : Disk) (locked : List Place) (path : String) :
    Except OpenError (Disk × OpenTable) :=
  if d.isFile (PathText.parse path) then d.openTable locked path else .error (.notFound path)

end Disk

end CoinCommit
