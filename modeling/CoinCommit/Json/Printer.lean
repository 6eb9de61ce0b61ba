import CoinCommit.Json.Value

/-!
# Writing JSON

A value is written in one of two layouts: on one line without blanks, or one
item a line, indented by two blanks for each level. Texts are escaped only
where they must be: quotes, backslashes and control characters below the blank.

## Main definitions

* `Json.Layout`: What stands between the parts of a value.
* `Json.onOneLine`, `Json.indented`: The two layouts.
* `Json.print`: The text of a value in a layout.
-/

namespace CoinCommit

namespace Json

/-- What stands at a line's end inside a value that is nested `depth` times, and after a colon. -/
structure Layout where
  lineBreak : (depth : Nat) → List Char
  afterColon : List Char

/-- Everything on one line. -/
def onOneLine : Layout := ⟨fun _ => [], []⟩

/-- One item a line, indented by two blanks for each level. -/
def indented : Layout := ⟨fun depth => '\n' :: List.replicate (2 * depth) ' ', [' ']⟩

/-- A hexadecimal digit in lower case, for a number below 16. -/
def hexDigit (n : Nat) : Char := if n < 10 then Char.ofNat (48 + n) else Char.ofNat (87 + n)

/-- A character inside a text. -/
def escape (c : Char) : List Char :=
  if c = '"' then ['\\', '"']
  else if c = '\\' then ['\\', '\\']
  else if c = '\n' then ['\\', 'n']
  else if c = '\r' then ['\\', 'r']
  else if c = '\t' then ['\\', 't']
  else if c = '\x08' then ['\\', 'b']
  else if c = '\x0c' then ['\\', 'f']
  else if c.toNat < 0x20 then
    ['\\', 'u', '0', '0', hexDigit (c.toNat / 16), hexDigit (c.toNat % 16)]
  else [c]

/-- A text between its quotes. -/
def quote (s : String) : List Char := '"' :: s.toList.flatMap escape ++ ['"']

/-- The decimal digits of an integer, after its sign. -/
def digits (n : Int) : List Char :=
  if n < 0 then '-' :: (Nat.repr n.natAbs).toList else (Nat.repr n.natAbs).toList

mutual

/-- The characters of a value that is nested `depth` times. A number or a text of which nothing
    was kept is written as null. -/
def printAt (layout : Layout) (depth : Nat) : Json → List Char
  | .null => ['n', 'u', 'l', 'l']
  | .bool true => ['t', 'r', 'u', 'e']
  | .bool false => ['f', 'a', 'l', 's', 'e']
  | .integer n => digits n
  | .otherNumber => ['n', 'u', 'l', 'l']
  | .text s => quote s
  | .brokenText => ['n', 'u', 'l', 'l']
  | .array [] => ['[', ']']
  | .array (item :: items) =>
      '[' :: layout.lineBreak (depth + 1) ++ printAt layout (depth + 1) item ++
        printItems layout (depth + 1) items ++ layout.lineBreak depth ++ [']']
  | .object [] => ['{', '}']
  | .object (member :: members) =>
      '{' :: layout.lineBreak (depth + 1) ++ printMember layout (depth + 1) member ++
        printMembers layout (depth + 1) members ++ layout.lineBreak depth ++ ['}']

/-- The characters of further items, a comma in front of each. -/
def printItems (layout : Layout) (depth : Nat) : List Json → List Char
  | [] => []
  | item :: items =>
      ',' :: layout.lineBreak depth ++ printAt layout depth item ++ printItems layout depth items

/-- The characters of a member. -/
def printMember (layout : Layout) (depth : Nat) : Option String × Json → List Char
  | (name, value) =>
      quote (name.getD "") ++ ':' :: layout.afterColon ++ printAt layout depth value

/-- The characters of further members, a comma in front of each. -/
def printMembers (layout : Layout) (depth : Nat) : List (Option String × Json) → List Char
  | [] => []
  | member :: members =>
      ',' :: layout.lineBreak depth ++ printMember layout depth member ++
        printMembers layout depth members

end

/-- The text of a value in a layout. -/
def print (layout : Layout) (value : Json) : String := String.ofList (printAt layout 0 value)

end Json

end CoinCommit
