import CoinCommit.Json.Token
import CoinCommit.Json.Value

/-!
# Reading JSON

A document is one value with nothing after it. The reader walks the tokens
once and keeps the arrays and objects that are still open on a stack, so it
reads nesting of any depth in the same way as a flat document.

## Main definitions

* `Json.Frame`: An array or object that is still open.
* `Json.expectValue`, `Json.afterValue`: The two states of the walk.
* `Json.parse?`: The value of a document.
-/

namespace CoinCommit

namespace Json

/-- An array or object that is still open, with its items so far, last one first; an object also
    has the name of the member whose value is being read. -/
inductive Frame where
  | inArray (items : List Json)
  | inObject (members : List (Option String × Json)) (name : Option String)

mutual

/-- Reads on where a value must stand. -/
def expectValue (frames : List Frame) : List Token → Option Json
  | .null :: rest => afterValue frames .null rest
  | .bool b :: rest => afterValue frames (.bool b) rest
  | .integer n :: rest => afterValue frames (.integer n) rest
  | .otherNumber :: rest => afterValue frames .otherNumber rest
  | .text (some s) :: rest => afterValue frames (.text s) rest
  | .text none :: rest => afterValue frames .brokenText rest
  | .openArray :: .closeArray :: rest => afterValue frames (.array []) rest
  | .openArray :: rest => expectValue (.inArray [] :: frames) rest
  | .openObject :: .closeObject :: rest => afterValue frames (.object []) rest
  | .openObject :: .text name :: .colon :: rest => expectValue (.inObject [] name :: frames) rest
  | _ => none

/-- Reads on after a value. -/
def afterValue (frames : List Frame) (value : Json) : List Token → Option Json
  | [] =>
      match frames with
      | [] => some value
      | _ :: _ => none
  | .comma :: .text name :: .colon :: rest =>
      match frames with
      | .inObject members last :: outer =>
          expectValue (.inObject ((last, value) :: members) name :: outer) rest
      | _ => none
  | .comma :: rest =>
      match frames with
      | .inArray items :: outer => expectValue (.inArray (value :: items) :: outer) rest
      | _ => none
  | .closeArray :: rest =>
      match frames with
      | .inArray items :: outer => afterValue outer (.array (value :: items).reverse) rest
      | _ => none
  | .closeObject :: rest =>
      match frames with
      | .inObject members last :: outer =>
          afterValue outer (.object ((last, value) :: members).reverse) rest
      | _ => none
  | _ => none

end

/-- The value of a document given as bytes. -/
def parse? (bs : Bytes) : Option Json := do
  let tokens ← Token.scan bs
  expectValue [] tokens

end Json

end CoinCommit
