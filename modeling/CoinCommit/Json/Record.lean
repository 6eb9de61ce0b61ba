import CoinCommit.Json.Reader

/-!
# Reading Records

A record with named fields may be given as an object, in any order and with
further members that are passed over, or as an array of its fields in their
order. An object may not give a known field twice, and its names must be texts.
A field is read by the kind of its value; integers must be written as integers
and lie in range.

## Main definitions

* `Json.record?`: The fields that a value gives.
* `Json.required`, `Json.orElse`: A field that must be there, and one that may
  be left out.
* `Json.text?`, `bool?`, `uint64?`, `uint32?`, `int64?`, `list?`, `nullable?`:
  The kinds of values.
-/

namespace CoinCommit

namespace Json

/-- The fields of a record that were given. -/
abbrev Fields := List (String × Json)

/-- Whether a name stands in front of at most one of the fields. -/
def atMostOnce (name : String) (fields : Fields) : Bool :=
  fields.countP (fun m => m.1 = name) ≤ 1

/-- The fields that a value gives of a record with these names, in this order. -/
def record? (names : List String) : Json → Option Fields
  | .array items => if items.length ≤ names.length then some (names.zip items) else none
  | .object members => do
      -- A name that is no text spoils the record, even if its field would be passed over.
      let named ← members.mapM fun m => m.1.map fun name => (name, m.2)
      let known := named.filter fun m => names.contains m.1
      if names.all fun name => atMostOnce name known then return known else none
  | _ => none

/-- A field that must be there. -/
def required {α : Type} (fields : Fields) (name : String) (read : Json → Option α) : Option α :=
  match fields.lookup name with
  | some value => read value
  | none => none

/-- A field that may be left out. -/
def orElse {α : Type} (fields : Fields) (name : String) (otherwise : α)
    (read : Json → Option α) : Option α :=
  match fields.lookup name with
  | some value => read value
  | none => some otherwise

/-- A text. -/
def text? : Json → Option String
  | .text s => some s
  | _ => none

/-- A truth value. -/
def bool? : Json → Option Bool
  | .bool b => some b
  | _ => none

/-- An unsigned integer of 64 bits. -/
def uint64? : Json → Option UInt64
  | .integer n => if 0 ≤ n ∧ n.toNat < UInt64.size then some (UInt64.ofNat n.toNat) else none
  | _ => none

/-- An unsigned integer of 32 bits. -/
def uint32? : Json → Option UInt32
  | .integer n => if 0 ≤ n ∧ n.toNat < UInt32.size then some (UInt32.ofNat n.toNat) else none
  | _ => none

/-- A signed integer of 64 bits. -/
def int64? : Json → Option Int64
  | .integer n =>
      if Int64.minValue.toInt ≤ n ∧ n ≤ Int64.maxValue.toInt then some (Int64.ofInt n) else none
  | _ => none

/-- A list of values of one kind. -/
def list? {α : Type} (read : Json → Option α) : Json → Option (List α)
  | .array items => items.mapM read
  | _ => none

/-- A value that may also be null. -/
def nullable? {α : Type} (read : Json → Option α) : Json → Option (Option α)
  | .null => some none
  | value => (read value).map some

end Json

end CoinCommit
