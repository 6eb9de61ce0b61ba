import CoinCommit.Json.Reader
import CoinCommit.Json.Record
import CoinCommit.Proofs.Json.Tokens

/-!
# Printed Values Are Read Back

A value that is printed is read as itself, in either layout and however deep it
is nested. What was not kept of a value cannot be printed either, and null
stands in its place; so the law is about the value as it is written, which is
the value itself if it has been made and not read.

The reader has one state in front of a value and one behind it, and a stack of
what is still open. To read the tokens of a value leads from the one to the
other and leaves the stack as it was.

## Main definitions

* `Json.written`: The value as it is written.

## Theorems

* `Json.written_fields`, `Json.written_present`, `Json.written_array_map`: Values
  that are written as they are.
* `Json.list?_map`: What is read of a printed list.
* `Json.expectValue_tokens`: Reading the tokens of a value.
* `Json.parse?_print_append`, `Json.parse?_print`: A printed value is read back.
-/

namespace CoinCommit

namespace Json

mutual

/-- The value as it is written: null for what was not kept, and an empty name for a broken one. -/
def written : Json → Json
  | .null => .null
  | .bool b => .bool b
  | .integer n => .integer n
  | .otherNumber => .null
  | .text s => .text s
  | .brokenText => .null
  | .array items => .array (writtenItems items)
  | .object members => .object (writtenMembers members)

/-- The items as they are written. -/
def writtenItems : List Json → List Json
  | [] => []
  | item :: items => written item :: writtenItems items

/-- A member as it is written. -/
def writtenMember : Option String × Json → Option String × Json
  | (name, value) => (some (name.getD ""), written value)

/-- The members as they are written. -/
def writtenMembers : List (Option String × Json) → List (Option String × Json)
  | [] => []
  | member :: members => writtenMember member :: writtenMembers members

end

section

variable {α β : Type} {write : α → Json} {read : Json → Option β} {f : α → β} {as : List α}

/-- A list of values that are written as they are. -/
theorem written_array_map (h : ∀ a ∈ as, (write a).written = write a) :
    (Json.array (as.map write)).written = .array (as.map write) := by
  rw [written]
  -- One item after another.
  congr 1
  induction as with
  | nil => rfl
  | cons a as ih =>
      rw [List.map_cons, writtenItems, h a List.mem_cons_self,
        ih fun a' ha => h a' (List.mem_cons_of_mem a ha)]

/-- An object whose members are written as they are. -/
theorem written_fields {members : List (String × Json)} (h : ∀ m ∈ members, m.2.written = m.2) :
    (fields members).written = fields members := by
  rw [fields, written]
  congr 1
  induction members with
  | nil => rfl
  | cons m members ih =>
      rw [List.map_cons, writtenMembers, writtenMember, h m List.mem_cons_self,
        ih fun m' hm => h m' (List.mem_cons_of_mem m hm), Option.getD_some]

/-- An object that leaves out some of its members. -/
theorem written_present {members : List (String × Option Json)}
    (h : ∀ m ∈ members, ∀ value, m.2 = some value → value.written = value) :
    (present members).written = present members := by
  -- What is left out is left out before anything is written.
  have hfields : present members =
      fields (members.filterMap fun m => m.2.map fun value => (m.1, value)) := by
    rw [present, fields, List.map_filterMap]
    congr
    funext m
    rw [Option.map_map]
    rfl
  rw [hfields]
  refine written_fields fun m hm => ?_
  rcases List.mem_filterMap.mp hm with ⟨m', hm', hsome⟩
  rcases Option.map_eq_some_iff.mp hsome with ⟨value, hvalue, rfl⟩
  exact h m' hm' value hvalue

/-- Items that are printed one by one are read one by one. -/
theorem list?_map (h : ∀ a ∈ as, read (write a) = some (f a)) :
    list? read (.array (as.map write)) = some (as.map f) := by
  rw [list?]
  induction as with
  | nil => rfl
  | cons a as ih =>
      rw [List.map_cons, List.mapM_cons, h a List.mem_cons_self,
        ih fun a' ha => h a' (List.mem_cons_of_mem a ha)]
      rfl

end

section

variable {frames outer : List Frame} {value : Json} {ts rest : List Token}

/-- No value starts with the end of an array. -/
theorem tokens_append_ne_closeArray (value : Json) (rest r : List Token) :
    value.tokens ++ rest ≠ .closeArray :: r := by
  cases value with
  | null | otherNumber | brokenText | bool b | integer n | text s =>
      intro h
      cases h
  | array items => cases items <;> intro h <;> cases h
  | object members => cases members <;> intro h <;> cases h

/-- No value starts like a member, unless a colon follows. -/
theorem tokens_append_ne_member (hrest : ∀ r, rest ≠ .colon :: r) (value : Json)
    (name : Option String) (r : List Token) :
    value.tokens ++ rest ≠ .text name :: .colon :: r := by
  cases value with
  | null | otherNumber | brokenText | bool b | integer n =>
      intro h
      cases h
  | text s =>
      intro h
      exact hrest r (List.cons.inj h).2
  | array items => cases items <;> intro h <;> cases h
  | object members => cases members <;> intro h <;> cases h

theorem itemsTokens_ne_colon (items : List Json) (rest r : List Token) :
    itemsTokens items ++ .closeArray :: rest ≠ .colon :: r := by
  cases items <;> intro h <;> cases h

theorem expectValue_openArray (h : ∀ r, ts ≠ .closeArray :: r) :
    expectValue frames (.openArray :: ts) = expectValue (.inArray [] :: frames) ts := by
  rw [expectValue]
  exact fun r hr => h r hr

theorem afterValue_comma {items : List Json} (h : ∀ name r, ts ≠ .text name :: .colon :: r) :
    afterValue (.inArray items :: outer) value (.comma :: ts) =
      expectValue (.inArray (value :: items) :: outer) ts := by
  rw [afterValue]
  exact fun name r hr => h name r hr

-- By recursion on the value. What is open around it is untouched, so it may be anything.
mutual

/-- To read the tokens of a value leads behind the value as it is written. -/
theorem expectValue_tokens (frames : List Frame) (value : Json) (rest : List Token) :
    expectValue frames (value.tokens ++ rest) = afterValue frames value.written rest := by
  match value with
  -- A value without parts is one token, which stands for it.
  | .null | .otherNumber | .brokenText | .bool b | .integer n | .text s => rfl
  | .array [] => rfl
  | .object [] => rfl
  | .array (item :: items) =>
      -- The array is opened, its first item read, and then the others up to its end.
      have hitems := afterValue_itemsTokens frames [] item.written items rest
      rw [tokens, List.cons_append, List.append_assoc, List.append_assoc,
        expectValue_openArray (tokens_append_ne_closeArray item _), expectValue_tokens]
      exact hitems
  | .object ((name, first) :: members) =>
      have hmembers := afterValue_membersTokens frames [] (name.getD "") first.written members rest
      rw [tokens, memberTokens, List.cons_append, List.append_assoc, List.append_assoc]
      exact (expectValue_tokens _ first _).trans hmembers

theorem afterValue_itemsTokens (outer : List Frame) (before : List Json) (value : Json)
    (items : List Json) (rest : List Token) :
    afterValue (.inArray before :: outer) value (itemsTokens items ++ .closeArray :: rest) =
      afterValue outer (.array (before.reverse ++ value :: writtenItems items)) rest := by
  match items with
  | [] =>
      -- The end of the array closes it with all items that were read.
      rw [writtenItems, ← List.reverse_cons]
      rfl
  | item :: items =>
      have hitems := afterValue_itemsTokens outer (value :: before) item.written items rest
      rw [List.reverse_cons, List.append_assoc] at hitems
      -- Behind a comma the next item is expected, and it is not taken for a member.
      rw [itemsTokens, List.cons_append, List.append_assoc, afterValue_comma
        (tokens_append_ne_member (itemsTokens_ne_colon items rest) item), expectValue_tokens]
      exact hitems

theorem afterValue_membersTokens (outer : List Frame) (before : List (Option String × Json))
    (name : String) (value : Json) (members : List (Option String × Json)) (rest : List Token) :
    afterValue (.inObject before (some name) :: outer) value
        (membersTokens members ++ .closeObject :: rest) =
      afterValue outer
        (.object (before.reverse ++ (some name, value) :: writtenMembers members)) rest := by
  match members with
  | [] =>
      -- The end of the object closes it with all members that were read.
      rw [writtenMembers, ← List.reverse_cons]
      rfl
  | (next, item) :: members =>
      have hmembers := afterValue_membersTokens outer ((some name, value) :: before)
        (next.getD "") item.written members rest
      rw [List.reverse_cons, List.append_assoc] at hmembers
      rw [membersTokens, memberTokens, List.cons_append, List.append_assoc]
      exact (expectValue_tokens _ item _).trans hmembers

end

/-- A value that is printed is read as it is written, whatever blanks are between its parts and
    after it. -/
theorem parse?_print_append {layout : Layout} (h : layout.IsBlank) (value : Json) {blanks : String}
    (hblanks : ∀ c ∈ blanks.toList, c = '\n' ∨ c = ' ') :
    parse? (Utf8.encode (print layout value ++ blanks)) = some value.written := by
  have hread := expectValue_tokens [] value []
  rw [List.append_nil] at hread
  rw [parse?, Token.scan_print_append h value hblanks, Option.bind_eq_bind, Option.bind_some, hread]
  rfl

theorem parse?_print {layout : Layout} (h : layout.IsBlank) (value : Json) :
    parse? (Utf8.encode (print layout value)) = some value.written := by
  -- No blanks are blank.
  have hnone : ∀ c ∈ "".toList, c = '\n' ∨ c = ' ' := fun _ hc => absurd hc List.not_mem_nil
  have hread := parse?_print_append h value hnone
  rwa [String.append_empty] at hread

end

end Json

end CoinCommit
