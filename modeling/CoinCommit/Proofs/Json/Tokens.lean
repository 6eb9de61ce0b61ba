import CoinCommit.Proofs.Json.Numbers

/-!
# The Tokens of a Printed Value

A value is printed part by part, and each part is scanned as the tokens it is
made of, whatever the layout puts between them. What the scan makes of a part
depends on the part alone, with one exception: a number goes on as long as what
follows it does. Nothing that is printed behind a value inside a larger one can
go on with a number, as it starts with a comma, a closing bracket or a blank.

## Main definitions

* `Json.tokens`: The tokens of a value.
* `Json.Layout.IsBlank`: A layout that puts blanks between the parts.
* `Token.mark?`: The characters that are tokens of their own.
* `Token.ScansTo`: The scan of some bytes down to a rest of them.
* `Token.Prints`: Characters that are scanned as these tokens.

## Theorems

* `Token.ScansTo.trans`: One scan after another.
* `Token.scansTo_quote`, `Token.scansTo_digits`: The tokens of a text and of an
  integer.
* `Token.Prints.bracketed`, `Token.Prints.further`, `Token.Prints.member`: The
  three ways in which parts are put together.
* `Token.prints_printAt`: The tokens of a value inside a larger one.
* `Token.scan_print_append`: The tokens of a printed value.
-/

namespace CoinCommit

namespace Json

mutual

/-- The tokens of a value. A number or a text of which nothing was kept has those of null. -/
def tokens : Json → List Token
  | .null => [.null]
  | .bool b => [.bool b]
  | .integer n => [.integer n]
  | .otherNumber => [.null]
  | .text s => [.text (some s)]
  | .brokenText => [.null]
  | .array [] => [.openArray, .closeArray]
  | .array (item :: items) =>
      .openArray :: (tokens item ++ (itemsTokens items ++ [.closeArray]))
  | .object [] => [.openObject, .closeObject]
  | .object (member :: members) =>
      .openObject :: (memberTokens member ++ (membersTokens members ++ [.closeObject]))

/-- The tokens of further items, a comma in front of each. -/
def itemsTokens : List Json → List Token
  | [] => []
  | item :: items => .comma :: (tokens item ++ itemsTokens items)

/-- The tokens of a member. -/
def memberTokens : Option String × Json → List Token
  | (name, value) => .text (some (name.getD "")) :: .colon :: tokens value

/-- The tokens of further members, a comma in front of each. -/
def membersTokens : List (Option String × Json) → List Token
  | [] => []
  | member :: members => .comma :: (memberTokens member ++ membersTokens members)

end

/-- The layout puts nothing but blanks between the parts of a value. -/
structure Layout.IsBlank (layout : Layout) : Prop where
  lineBreak : ∀ depth, ∀ c ∈ layout.lineBreak depth, c = '\n' ∨ c = ' '
  afterColon : ∀ c ∈ layout.afterColon, c = '\n' ∨ c = ' '

theorem isBlank_onOneLine : onOneLine.IsBlank where
  lineBreak := fun _ _ hc => absurd hc List.not_mem_nil
  afterColon := fun _ hc => absurd hc List.not_mem_nil

theorem isBlank_indented : indented.IsBlank where
  lineBreak := by
    intro depth c hc
    rcases List.mem_cons.mp hc with rfl | hc
    · exact Or.inl rfl
    · exact Or.inr (List.eq_of_mem_replicate hc)
  afterColon := fun _ hc => Or.inr (List.mem_singleton.mp hc)

end Json

namespace Token

/-- The scan finds these tokens in front of some bytes, and a rest is left. There is fuel for the
    rest if there was for the whole. -/
def ScansTo (tokens : List Token) (bs rest : Bytes) : Prop :=
  ∀ (fuel : Nat) (reversed : List Token), bs.length < fuel →
    ∃ fuel', rest.length < fuel' ∧
      scanAll fuel reversed bs = scanAll fuel' (tokens.reverse ++ reversed) rest

/-- The token that a character is if it stands for itself. -/
def mark? : Char → Option Token
  | '[' => some .openArray
  | ']' => some .closeArray
  | '{' => some .openObject
  | '}' => some .closeObject
  | ':' => some .colon
  | ',' => some .comma
  | _ => none

section

variable {tokens tokens' : List Token} {token : Token} {b : UInt8} {bs rest rest' : Bytes}

theorem ScansTo.refl (bs : Bytes) : ScansTo [] bs bs := by
  intro fuel reversed hfuel
  exact ⟨fuel, hfuel, rfl⟩

theorem ScansTo.trans (h : ScansTo tokens bs rest) (h' : ScansTo tokens' rest rest') :
    ScansTo (tokens ++ tokens') bs rest' := by
  intro fuel reversed hfuel
  rcases h fuel reversed hfuel with ⟨fuel₁, hfuel₁, hfirst⟩
  -- The fuel left by the first scan is enough for the second.
  rcases h' fuel₁ (tokens.reverse ++ reversed) hfuel₁ with ⟨fuel₂, hfuel₂, hsecond⟩
  refine ⟨fuel₂, hfuel₂, ?_⟩
  rw [hfirst, hsecond, List.reverse_append, List.append_assoc]

/-- A token takes one step. -/
theorem ScansTo.of_scanOne (hblank : isBlank b = false)
    (h : ∀ fuel, bs.length < fuel → scanOne fuel (b :: bs) = some (token, rest))
    (hle : rest.length ≤ bs.length) : ScansTo [token] (b :: bs) rest := by
  intro fuel reversed hfuel
  cases fuel with
  | zero => exact absurd hfuel (Nat.not_lt_zero _)
  | succ fuel =>
      rw [List.length_cons] at hfuel
      refine ⟨fuel, by omega, ?_⟩
      -- No blank is in front of the token, so the scan comes to it at once.
      have hnext : (b :: bs).dropWhile isBlank = b :: bs := by
        rw [List.dropWhile_cons, hblank, if_neg Bool.false_ne_true]
      rw [scanAll, hnext]
      simp only [h fuel (by omega)]
      rfl

/-- A blank leads to no token. -/
theorem ScansTo.of_isBlank (hblank : isBlank b = true) : ScansTo [] (b :: rest) rest := by
  intro fuel reversed hfuel
  refine ⟨fuel, Nat.lt_of_succ_lt hfuel, ?_⟩
  cases fuel with
  | zero => rfl
  | succ fuel =>
      -- A scan passes over all blanks in front, and so over this one.
      have hnext : (b :: rest).dropWhile isBlank = rest.dropWhile isBlank := by
        rw [List.dropWhile_cons, if_pos hblank]
      rw [scanAll, hnext, scanAll]
      rfl

/-- A character that is a token of its own. -/
theorem scansTo_mark {c : Char} (h : mark? c = some token) (rest : Bytes) :
    ScansTo [token] (String.utf8EncodeChar c ++ rest) rest := by
  unfold mark? at h
  split at h <;> cases h <;> exact ScansTo.of_scanOne rfl (fun _ _ => rfl) (Nat.le_refl _)

theorem scansTo_blanks {cs : List Char} (h : ∀ c ∈ cs, c = '\n' ∨ c = ' ') (rest : Bytes) :
    ScansTo [] (Utf8.ofChars cs ++ rest) rest := by
  induction cs with
  | nil => exact ScansTo.refl rest
  | cons c cs ih =>
      have hrest := ih fun c' hc => h c' (List.mem_cons_of_mem c hc)
      rcases h c List.mem_cons_self with rfl | rfl <;>
        exact (ScansTo.of_isBlank rfl).trans hrest

theorem scansTo_null (rest : Bytes) :
    ScansTo [.null] (Utf8.ofChars ['n', 'u', 'l', 'l'] ++ rest) rest :=
  ScansTo.of_scanOne rfl (fun _ _ => rfl) (Nat.le_add_right _ 3)

theorem scansTo_true (rest : Bytes) :
    ScansTo [.bool true] (Utf8.ofChars ['t', 'r', 'u', 'e'] ++ rest) rest :=
  ScansTo.of_scanOne rfl (fun _ _ => rfl) (Nat.le_add_right _ 3)

theorem scansTo_false (rest : Bytes) :
    ScansTo [.bool false] (Utf8.ofChars ['f', 'a', 'l', 's', 'e'] ++ rest) rest :=
  ScansTo.of_scanOne rfl (fun _ _ => rfl) (Nat.le_add_right _ 4)

/-- A text between quotes is one token. -/
theorem scansTo_quote (s : String) (rest : Bytes) :
    ScansTo [.text (some s)] (Utf8.ofChars (Json.quote s) ++ rest) rest := by
  -- Between the quotes are the characters as they are written.
  have hbytes : Utf8.ofChars (Json.quote s) ++ rest =
      0x22 :: (Utf8.ofChars (s.toList.flatMap Json.escape) ++ 0x22 :: rest) := by
    rw [Json.quote, List.cons_append, Utf8.ofChars_cons, Utf8.ofChars_append, List.append_assoc,
      List.append_assoc]
    rfl
  rw [hbytes]
  refine ScansTo.of_scanOne rfl (fun fuel hfuel => ?_) ?_
  · change Option.map _ (scanText fuel true [] _) = _
    rw [scanText_quote s rest hfuel]
    rfl
  · rw [List.length_append, List.length_cons]
    omega

theorem ne_of_isDigit {x : UInt8} (h : isDigit b = true) (hx : isDigit x = false) : b ≠ x := by
  rintro rfl
  rw [h] at hx
  cases hx

/-- A byte that is a digit starts a number. -/
theorem scanOne_digit (h : isDigit b = true) (fuel : Nat) (bs : Bytes) :
    scanOne fuel (b :: bs) = scanNumber false (b :: bs) := by
  have hne : ∀ x, isDigit x = false → b ≠ x := fun _ hx => ne_of_isDigit h hx
  rw [scanOne, if_neg (hne _ rfl), if_neg (hne _ rfl), if_neg (hne _ rfl), if_neg (hne _ rfl),
    if_neg (hne _ rfl), if_neg (hne _ rfl), if_neg (hne _ rfl), if_neg (hne _ rfl), if_pos h]

/-- The digits of an integer are one token, unless they go on. -/
theorem scansTo_digits (n : Int) (hrest : Stops rest) :
    ScansTo [.integer n] (Utf8.ofChars (Json.digits n) ++ rest) rest := by
  have hds := decimal_repr n.natAbs
  rw [Json.digits]
  by_cases hneg : n < 0
  · -- The sign is no digit, and a number follows it.
    have hvalue : -(n.natAbs : Int) = n := by omega
    have hsign : Utf8.ofChars ('-' :: (Nat.repr n.natAbs).toList) ++ rest =
        0x2d :: (Utf8.ofChars (Nat.repr n.natAbs).toList ++ rest) := rfl
    have hone : ∀ fuel bs, scanOne fuel (0x2d :: bs) = scanNumber true bs := fun _ _ => rfl
    -- No sign is written in front of zero.
    have hread := scanNumber_of_decimal hds true (fun _ => by omega) hrest
    rw [if_pos rfl, hvalue] at hread
    rw [if_pos hneg, hsign]
    refine ScansTo.of_scanOne rfl (fun fuel _ => (hone fuel _).trans hread) ?_
    rw [List.length_append]
    omega
  · have hvalue : (n.natAbs : Int) = n := by omega
    have hread := scanNumber_of_decimal hds false (fun h => absurd h Bool.false_ne_true) hrest
    rcases List.exists_cons_of_ne_nil hds.nonempty with ⟨b, ds, hbytes⟩
    have hdigit : isDigit b = true := hds.digits b (by rw [hbytes]; exact List.mem_cons_self)
    -- The scan has to come upon the first digit as the start of a token.
    have hblank : isBlank b = false := by
      rw [isBlank, decide_eq_false (ne_of_isDigit hdigit rfl),
        decide_eq_false (ne_of_isDigit hdigit rfl), decide_eq_false (ne_of_isDigit hdigit rfl),
        decide_eq_false (ne_of_isDigit hdigit rfl)]
      rfl
    rw [if_neg Bool.false_ne_true, hvalue, hbytes, List.cons_append] at hread
    rw [if_neg hneg, hbytes, List.cons_append]
    refine ScansTo.of_scanOne hblank (fun fuel _ => (scanOne_digit hdigit fuel _).trans hread) ?_
    rw [List.length_append]
    omega

/-- A byte that is none of a number's ends it. -/
theorem stops_cons (hdigit : isDigit b = false) (hpoint : b ≠ 0x2e) (hlower : b ≠ 0x65)
    (hupper : b ≠ 0x45) (rest : Bytes) : Stops (b :: rest) := by
  -- The first byte is the one that was given.
  intro b' hb
  cases hb
  exact ⟨hdigit, hpoint, hlower, hupper⟩

theorem stops_nil : Stops [] := by
  intro b hb
  cases hb

theorem stops_mark {c : Char} (h : mark? c = some token) (rest : Bytes) :
    Stops (String.utf8EncodeChar c ++ rest) := by
  unfold mark? at h
  split at h <;> cases h <;> exact stops_cons rfl (by decide) (by decide) (by decide) rest

theorem stops_blanks {cs : List Char} (h : ∀ c ∈ cs, c = '\n' ∨ c = ' ') (hrest : Stops rest) :
    Stops (Utf8.ofChars cs ++ rest) := by
  cases cs with
  | nil => exact hrest
  | cons c cs =>
      rcases h c List.mem_cons_self with rfl | rfl <;>
        exact stops_cons rfl (by decide) (by decide) (by decide) _

theorem stops_further {cs : List Char} (h : cs = [] ∨ ∃ cs', cs = ',' :: cs')
    (hrest : Stops rest) : Stops (Utf8.ofChars cs ++ rest) := by
  rcases h with rfl | ⟨cs', rfl⟩
  · exact hrest
  · exact stops_cons rfl (by decide) (by decide) (by decide) _

end

/-- Characters that are scanned as these tokens, whatever stands behind them, as long as it ends a
    number. -/
def Prints (cs : List Char) (tokens : List Token) : Prop :=
  ∀ rest, Stops rest → ScansTo tokens (Utf8.ofChars cs ++ rest) rest

section

variable {layout : Json.Layout} {first more : List Char} {p q : List Token}

/-- An array or object of several parts: the first, and the others with a comma in front of each. -/
theorem Prints.bracketed (h : layout.IsBlank) (depth : Nat) {left right : Char} {l r : Token}
    (hleft : mark? left = some l) (hright : mark? right = some r) (hfirst : Prints first p)
    (hmore : Prints more q) (hcomma : more = [] ∨ ∃ cs, more = ',' :: cs) :
    Prints (left :: layout.lineBreak (depth + 1) ++ first ++ more ++ layout.lineBreak depth ++
      [right]) (l :: (p ++ (q ++ [r]))) := by
  intro rest hrest
  -- Bracket, line break, first part, further parts, line break, bracket.
  have hbytes : Utf8.ofChars (left :: layout.lineBreak (depth + 1) ++ first ++ more ++
        layout.lineBreak depth ++ [right]) ++ rest =
      String.utf8EncodeChar left ++ (Utf8.ofChars (layout.lineBreak (depth + 1)) ++
        (Utf8.ofChars first ++ (Utf8.ofChars more ++ (Utf8.ofChars (layout.lineBreak depth) ++
          (String.utf8EncodeChar right ++ rest))))) := by
    simp only [Utf8.ofChars_append, Utf8.ofChars_cons, Utf8.ofChars_nil, List.append_assoc,
      List.nil_append]
  -- Each part ends before what stands behind it.
  have hend := stops_blanks (h.lineBreak depth) (stops_mark hright rest)
  have hlast := (scansTo_blanks (h.lineBreak depth) _).trans (scansTo_mark hright rest)
  have hparts := (hfirst _ (stops_further hcomma hend)).trans ((hmore _ hend).trans hlast)
  rw [hbytes]
  exact (scansTo_mark hleft _).trans ((scansTo_blanks (h.lineBreak (depth + 1)) _).trans hparts)

/-- One part more, with a comma in front. -/
theorem Prints.further (h : layout.IsBlank) (depth : Nat) (hfirst : Prints first p)
    (hmore : Prints more q) (hcomma : more = [] ∨ ∃ cs, more = ',' :: cs) :
    Prints (',' :: layout.lineBreak depth ++ first ++ more) (.comma :: (p ++ q)) := by
  intro rest hrest
  have hbytes : Utf8.ofChars (',' :: layout.lineBreak depth ++ first ++ more) ++ rest =
      String.utf8EncodeChar ',' ++ (Utf8.ofChars (layout.lineBreak depth) ++
        (Utf8.ofChars first ++ (Utf8.ofChars more ++ rest))) := by
    simp only [Utf8.ofChars_append, Utf8.ofChars_cons, List.append_assoc]
  have hparts := (hfirst _ (stops_further hcomma hrest)).trans (hmore rest hrest)
  rw [hbytes]
  exact (scansTo_mark (c := ',') rfl _).trans
    ((scansTo_blanks (h.lineBreak depth) _).trans hparts)

/-- A member: its name, a colon and its value. -/
theorem Prints.member (h : layout.IsBlank) (name : String) (hvalue : Prints first p) :
    Prints (Json.quote name ++ ':' :: layout.afterColon ++ first)
      (.text (some name) :: .colon :: p) := by
  intro rest hrest
  -- Name, colon, what follows the colon, value.
  have hbytes : Utf8.ofChars (Json.quote name ++ ':' :: layout.afterColon ++ first) ++ rest =
      Utf8.ofChars (Json.quote name) ++ (String.utf8EncodeChar ':' ++
        (Utf8.ofChars layout.afterColon ++ (Utf8.ofChars first ++ rest))) := by
    simp only [Utf8.ofChars_append, Utf8.ofChars_cons, List.append_assoc]
  have hparts := (scansTo_blanks h.afterColon _).trans (hvalue rest hrest)
  rw [hbytes]
  exact (scansTo_quote name _).trans ((scansTo_mark (c := ':') rfl _).trans hparts)

theorem printItems_comma (layout : Json.Layout) (depth : Nat) (items : List Json) :
    Json.printItems layout depth items = [] ∨
      ∃ cs, Json.printItems layout depth items = ',' :: cs := by
  cases items with
  | nil => exact Or.inl rfl
  | cons item items => exact Or.inr ⟨_, rfl⟩

theorem printMembers_comma (layout : Json.Layout) (depth : Nat)
    (members : List (Option String × Json)) :
    Json.printMembers layout depth members = [] ∨
      ∃ cs, Json.printMembers layout depth members = ',' :: cs := by
  cases members with
  | nil => exact Or.inl rfl
  | cons member members => exact Or.inr ⟨_, rfl⟩

-- By recursion on the value. A number is the one case in which what stands behind it matters.
mutual

/-- A value that is printed has its tokens, unless it is a number that goes on. -/
theorem prints_printAt (h : layout.IsBlank) (depth : Nat) (value : Json) :
    Prints (Json.printAt layout depth value) value.tokens := by
  match value with
  | .null | .otherNumber | .brokenText => exact fun rest _ => scansTo_null rest
  | .bool true => exact fun rest _ => scansTo_true rest
  | .bool false => exact fun rest _ => scansTo_false rest
  | .integer n => exact fun rest hrest => scansTo_digits n hrest
  | .text s => exact fun rest _ => scansTo_quote s rest
  | .array [] =>
      -- The brackets stand next to each other.
      exact fun rest _ => (scansTo_mark (c := '[') rfl _).trans (scansTo_mark (c := ']') rfl rest)
  | .array (item :: items) =>
      exact Prints.bracketed h depth rfl rfl (prints_printAt h (depth + 1) item)
        (prints_printItems h (depth + 1) items) (printItems_comma layout (depth + 1) items)
  | .object [] =>
      exact fun rest _ => (scansTo_mark (c := '{') rfl _).trans (scansTo_mark (c := '}') rfl rest)
  | .object (member :: members) =>
      exact Prints.bracketed h depth rfl rfl (prints_printMember h (depth + 1) member)
        (prints_printMembers h (depth + 1) members) (printMembers_comma layout (depth + 1) members)

theorem prints_printItems (h : layout.IsBlank) (depth : Nat) (items : List Json) :
    Prints (Json.printItems layout depth items) (Json.itemsTokens items) := by
  match items with
  | [] => exact fun rest _ => ScansTo.refl rest
  | item :: items =>
      exact Prints.further h depth (prints_printAt h depth item) (prints_printItems h depth items)
        (printItems_comma layout depth items)

theorem prints_printMember (h : layout.IsBlank) (depth : Nat) (member : Option String × Json) :
    Prints (Json.printMember layout depth member) (Json.memberTokens member) := by
  match member with
  | (name, value) => exact Prints.member h (name.getD "") (prints_printAt h depth value)

theorem prints_printMembers (h : layout.IsBlank) (depth : Nat)
    (members : List (Option String × Json)) :
    Prints (Json.printMembers layout depth members) (Json.membersTokens members) := by
  match members with
  | [] => exact fun rest _ => ScansTo.refl rest
  | member :: members =>
      exact Prints.further h depth (prints_printMember h depth member)
        (prints_printMembers h depth members) (printMembers_comma layout depth members)

end

/-- A value that is printed is scanned as its tokens, also with blanks after it. -/
theorem scan_print_append (h : layout.IsBlank) (value : Json) {blanks : String}
    (hblanks : ∀ c ∈ blanks.toList, c = '\n' ∨ c = ' ') :
    scan (Utf8.encode (Json.print layout value ++ blanks)) = some value.tokens := by
  have hbytes : Utf8.encode (Json.print layout value ++ blanks) =
      Utf8.ofChars (Json.printAt layout 0 value) ++ (Utf8.ofChars blanks.toList ++ []) := by
    rw [Json.print, ← String.ofList_toList (s := blanks), ← String.ofList_append,
      Utf8.encode_ofList, String.toList_ofList, List.append_nil, ← Utf8.ofChars_append]
    rfl
  rw [hbytes, scan]
  -- Nothing is left behind the blanks, and fuel enough to see that.
  have hscans := (prints_printAt h 0 value _ (stops_blanks hblanks stops_nil)).trans
    (scansTo_blanks hblanks [])
  rw [List.append_nil] at hscans
  rcases hscans _ [] (Nat.lt_succ_self _) with ⟨fuel, hfuel, hscan⟩
  rw [hscan]
  cases fuel with
  | zero => exact absurd hfuel (Nat.not_lt_zero _)
  | succ fuel =>
      rw [scanAll, List.append_nil]
      exact congrArg some (List.reverse_reverse _)

end

end Token

end CoinCommit
