import CoinCommit.Bytes.CompactSize
import CoinCommit.Ledger.Table

/-!
# The File of a Chain State

A table is kept in a file of its own format: a mark of eight bytes, and each
entry as its key and its value, both with their lengths in front. The mark is
no text, so a file of text is never taken for a chain state. An empty file is
one that nothing has been written to yet.

## Main definitions

* `Table.toImage`: The bytes of a table's file.
* `Table.ofImage?`: The table in a file's bytes, if they are such a file.
-/

namespace CoinCommit

namespace Table

/-- The first bytes of a file. -/
def mark : Bytes := [0xa9, 0x63, 0x6f, 0x69, 0x6e, 0x73, 0x0d, 0x0a]

/-- An entry as its key and its value, both with their lengths in front. -/
def encodeEntry (e : Bytes × Bytes) : Bytes := CompactSize.sized e.1 ++ CompactSize.sized e.2

/-- The bytes of a table's file. -/
def toImage (t : Table) : Bytes := mark ++ t.entries.flatMap encodeEntry

/-- The byte string in front, after its length. -/
def readSized : Read Bytes := do
  let (length, _) ← CompactSize.read
  Cursor.bytes length.toNat

/-- The table with the entries ahead of a cursor written into it in their order. The fuel is at
    least the number of bytes. -/
def readEntries : (fuel : Nat) → Table → Cursor → Option Table
  | 0, _, _ => none
  | fuel + 1, t, c =>
      if c.rest = [] then some t
      else
        match readSized c with
        | .error _ _ => none
        | .ok key c' =>
            match readSized c' with
            | .error _ _ => none
            | .ok value c'' => readEntries fuel (t.insert key value) c''

/-- The table in a file's bytes; absent if they are not the file of a table. -/
def ofImage? (content : Bytes) : Option Table :=
  if content = [] then some empty
  else if content.take mark.length = mark then
    readEntries (content.length + 1) empty (Cursor.start (content.drop mark.length))
  else none

end Table

end CoinCommit
