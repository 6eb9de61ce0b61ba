import CoinCommit.Disk.Tree

/-!
# Saving Files

A file is replaced by writing a temporary file and renaming it, so that
whoever reads the file sees the old bytes or the new ones and nothing between.
Secrets are saved in a temporary file that is made for its owner alone, in a
folder that is made if need be. A published file is put into a folder that
has to be there. The caller gives a tag that makes the temporary name unused.

## Main definitions

* `Disk.saveSecret`: Saves bytes for the owner only, with `SecretSaveError`.
* `Disk.publish`: Saves bytes for everyone, with `PublishError`.
-/

namespace CoinCommit

/-- The step at which saving a secret fails. -/
inductive SecretSaveError where
  | createParent
  | writeTemp
  | renameTemp
deriving DecidableEq

/-- The text of the error. -/
def SecretSaveError.message : SecretSaveError → String
  | .createParent => "create parent"
  | .writeTemp => "write temp"
  | .renameTemp => "rename temp"

/-- The step at which publishing a file fails. -/
inductive PublishError where
  | createTemp
  | rename
deriving DecidableEq

/-- The text of the error. -/
def PublishError.message : PublishError → String
  | .createTemp => "create manifest tmp"
  | .rename => "rename manifest"

namespace Disk

/-- The disk with the folder in which a path's last part stands, and whether it is there. -/
def makeParent (d : Disk) (path : PathText) : Disk × Bool :=
  match path.parent? with
  | none => (d, true)
  | some parent => if parent.isEmpty then (d, true) else d.makeFolders parent

/-- The disk after bytes are saved at a path for the owner only. The temporary name is the path
    with the tag at its end; if the rename fails the temporary file is removed. -/
def saveSecret (d : Disk) (path tag : String) (data : Bytes) : Disk × Except SecretSaveError Unit :=
  let target := PathText.parse path
  let temp := PathText.parse (path ++ ".tmp." ++ tag)
  -- Folders that were made on the way stay, whatever happens later.
  match d.makeParent target with
  | (d, false) => (d, .error .createParent)
  | (d, true) =>
      match d.create? temp Mode.ownerOnly data with
      | none => (d, .error .writeTemp)
      | some written =>
          match written.rename? temp target with
          -- The target is still what it was; only the temporary file has to go.
          | none => ((written.remove? temp).getD written, .error .renameTemp)
          | some renamed => (renamed, .ok ())

/-- The folder into which a path publishes. -/
def publishFolder (path : PathText) : PathText :=
  match path.parent? with
  | some parent => if parent.isEmpty then PathText.parse "." else parent
  | none => PathText.parse "."

/-- The name of the temporary file of a published file. -/
def publishTempName (tag : String) : String := ".SNAPSHOT.json.tmp." ++ tag

/-- The disk after bytes are published at a path. The temporary file lies in the same folder, and
    stays there if the rename fails. -/
def publish (d : Disk) (path tag : String) (data : Bytes) : Disk × Except PublishError Unit :=
  let target := PathText.parse path
  let temp := (publishFolder target).join (publishTempName tag)
  match d.create? temp Mode.everyone data with
  | none => (d, .error .createTemp)
  | some written =>
      match written.rename? temp target with
      | none => (written, .error .rename)
      | some renamed => (renamed, .ok ())

end Disk

end CoinCommit
