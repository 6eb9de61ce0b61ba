/-!
# Path Texts

A path is given as a text: segments between slashes, from the root if the text
starts with one and else from the working folder. An empty segment leads
nowhere, and neither does a single dot, which names the folder it stands in;
two dots name the one above. A path that leads to the same place by a longer
text is still another text, and a file system bounds the text: the segments
that lead nowhere count there too.

## Main definitions

* `PathText`: A path text taken apart.
* `PathText.parse`, `PathText.text`: The segments of a text, and back.
* `PathText.parts`: The segments that are not empty.
* `PathText.parent?`: The folder in which the last part stands.
* `PathText.join`: A name in a folder.
* `PathText.isAllowed`: Whether a file system takes the path at all.
* `PathText.isName`: Whether a part can be the name of a file or folder.

## Theorems

* `PathText.text_parse`: Taking a text apart loses nothing of it.
-/

namespace CoinCommit

/-- A path text taken apart at its slashes. Segments are empty where two slashes meet, before a
    slash at the start and behind one at the end. -/
structure PathText where
  segments : List String
deriving DecidableEq

namespace PathText

/-- The segments of a text. -/
def parse (text : String) : PathText := ⟨(text.toList.splitOn '/').map String.ofList⟩

/-- The text with these segments. -/
def text (p : PathText) : String := "/".intercalate p.segments

/-- The text of a text's segments is that text. -/
theorem text_parse (s : String) : (parse s).text = s := by
  have hid : String.toList ∘ String.ofList = id := funext fun cs => String.toList_ofList
  apply String.toList_inj.mp
  simp only [text, parse, String.toList_intercalate, List.map_map, hid, List.map_id]
  exact List.intercalate_splitOn '/'

/-- The parts of a path: its segments, apart from the empty ones. -/
def parts (p : PathText) : List String := p.segments.filter (· ≠ "")

/-- Whether a path starts at the root. -/
def absolute (p : PathText) : Bool :=
  match p.segments with
  | "" :: _ :: _ => true
  | _ => false

/-- Whether there is a slash at the end. -/
def endsInSlash (p : PathText) : Bool := 1 < p.segments.length && p.segments.getLast? == some ""

/-- Whether the text is empty. -/
def isEmpty (p : PathText) : Bool := p.text == ""

/-- Whether a segment leads nowhere else. -/
def isIdle (segment : String) : Bool := segment = "" || segment = "."

/-- The segments up to the last one that leads elsewhere. -/
def dropIdleEnd (segments : List String) : List String :=
  (segments.reverse.dropWhile isIdle).reverse

/-- The path without its last part; absent for the empty path and the root. What stands before is
    kept as it is written, down to its empty segments. -/
def parent? (p : PathText) : Option PathText :=
  match p.segments with
  | [] => none
  | first :: rest =>
      -- The first segment is set apart, since a dot or a slash at the start always counts.
      match dropIdleEnd rest with
      | [] => if first = "" then none else some ⟨[""]⟩
      | segment :: more =>
          match dropIdleEnd (segment :: more).dropLast with
          | [] => if first = "" then some ⟨["", ""]⟩ else some ⟨[first]⟩
          | above => some ⟨first :: above⟩

/-- The path of a name in the folder of this path. A slash at the end is not doubled. -/
def join (p : PathText) (name : String) : PathText :=
  ⟨(if p.endsInSlash then p.segments.dropLast else p.segments) ++ [name]⟩

/-- The longest name, in bytes. -/
def maxNameBytes : Nat := 255

/-- The longest text of a path, in bytes. -/
def maxPathBytes : Nat := 4095

/-- Whether the file system takes the path at all: its text is not too long and has no NUL. -/
def isAllowed (p : PathText) : Bool :=
  p.text.utf8ByteSize ≤ maxPathBytes && !p.text.toList.contains '\x00'

/-- Whether a part can be the name of a file or folder. -/
def isName (part : String) : Bool :=
  part ≠ "" && part ≠ "." && part ≠ ".." && part.utf8ByteSize ≤ maxNameBytes

end PathText

end CoinCommit
