import CoinCommit.Command.Run

/-!
# The Program

Reads one request from standard input and prints its answer. What the request
names of the file system is read into a `Disk` first, and what the answer has
changed on it is written back afterwards; everything between is the pure
`Command.respond`.

## Main definitions

* `FileSystem.diskFor`: The part of the file system that some paths lead to.
* `FileSystem.writeBack`: The changes of a disk made on the file system.
* `main`: The program.
-/

namespace CoinCommit

/-- The paths that a request names, left out or not. -/
def Request.paths (r : Request) : List String := [r.storePath, r.keystorePath, r.manifestOut]

namespace FileSystem

/-- The path of a place, from the root. -/
def pathOf (place : Place) : String := "/" ++ "/".intercalate place

/-- What the file system has at a place. The mode of a file is not asked for, because no answer
    depends on it. -/
def nodeAt? (place : Place) : IO (Option Node) := do
  match ← (IO.FS.readBinFile (pathOf place)).toBaseIO with
  | .ok content => return some (.file Mode.everyone content.toList)
  | .error (.inappropriateType ..) => return some .folder
  | .error _ => return none

/-- The disk with what the file system has along a path that goes on from a place. -/
def readAlong (d : Disk) (here : Place) : List String → IO Disk
  | [] => return d
  | part :: rest =>
      match d.step? here part with
      | none => return d
      | some next =>
          match d.node? next with
          | some _ => readAlong d next rest
          | none => do
              match ← nodeAt? next with
              | some node => readAlong (d.put next node) next rest
              | none => return d

/-- The disk with the working folder and everything that lies along the given paths. -/
def diskFor (paths : List String) : IO Disk := do
  let working := (PathText.parse (← IO.currentDir).toString).parts
  -- Nothing is masked here: the system takes its own bits away when a file is written.
  let d ← readAlong ⟨working, 0, []⟩ [] working
  paths.foldlM (fun d text => readAlong d (d.origin (PathText.parse text))
    (PathText.parse text).parts) d

/-- Puts a node at a place. A file is written under another name first and then renamed, so that
    no one reads half of it. -/
def writeNode (tag : String) (place : Place) : Node → IO Unit
  | .folder => IO.FS.createDir (pathOf place)
  | .file _ content => do
      let temp := pathOf place ++ ".new." ++ tag
      IO.FS.writeBinFile temp ⟨content.toArray⟩
      IO.FS.rename temp (pathOf place)

/-- Makes the changes from one disk to another, oldest first, so that a folder is made before what
    lies in it. -/
def writeBack (tag : String) (before after : Disk) : IO Unit := do
  for (place, node) in after.nodes.reverse do
    if before.node? place ≠ some node then writeNode tag place node
  for (place, _) in before.nodes do
    if (after.node? place).isNone then IO.FS.removeFile (pathOf place)

end FileSystem

end CoinCommit

open CoinCommit in
/-- Answers the request on standard input. -/
def main : IO Unit := do
  let document := (← (← IO.getStdin).readBinToEnd).toList
  let tag := Nat.repr (← IO.monoNanosNow)
  let before ← FileSystem.diskFor ((Request.ofBytes? document).elim [] Request.paths)
  let (after, text) := Command.respond ed25519 tag before document
  FileSystem.writeBack tag before after
  (← IO.getStdout).putStr text
