/-!
# JSON Values

The values of the documents that are read and written: requests, answers,
manifests and key files. Members of an object keep their order, and a name may
occur twice; whoever reads an object decides what that means.

Only what a reader can keep is kept. A number not written as an integer is a
number and nothing more, and the same goes for a text that is well formed as a
token but no text: one with half of a surrogate pair, or with bytes that are
not UTF-8.

## Main definitions

* `Json`: A value.
* `Json.name`: The name of a member whose name is a text.
-/

namespace CoinCommit

/-- A JSON value. -/
inductive Json where
  | null
  | bool (b : Bool)
  | integer (n : Int)
  | otherNumber
  | text (s : String)
  | brokenText
  | array (items : List Json)
  | object (members : List (Option String × Json))

namespace Json

/-- A natural number. -/
def nat (n : Nat) : Json := .integer n

/-- An object whose members are present or absent. -/
def present (members : List (String × Option Json)) : Json :=
  .object (members.filterMap fun m => m.2.map fun value => (some m.1, value))

/-- An object with these members. -/
def fields (members : List (String × Json)) : Json :=
  .object (members.map fun m => (some m.1, m.2))

end Json

end CoinCommit
