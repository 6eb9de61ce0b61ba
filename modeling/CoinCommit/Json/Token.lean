import CoinCommit.Text.Utf8

/-!
# JSON Tokens

A document is read as bytes. Between tokens stand blanks, tabs and line ends.
A text is taken apart on bytes, so that its ends are found whatever stands
between them; whether the bytes are a text is known at its end. An escape must
be complete, but an escape for half of a surrogate pair only makes the text a
broken one.

## Main definitions

* `Token`: A token with what it carries.
* `Token.scan`: The tokens of a document, if it has only tokens and blanks.
-/

namespace CoinCommit

/-- A token. A number that is not written as an integer carries nothing, and a text that is broken
    has no characters. -/
inductive Token where
  | openArray
  | closeArray
  | openObject
  | closeObject
  | colon
  | comma
  | null
  | bool (b : Bool)
  | integer (n : Int)
  | otherNumber
  | text (s : Option String)
deriving DecidableEq

namespace Token

/-- Whether a byte is a blank between tokens. -/
def isBlank (b : UInt8) : Bool := b = 0x20 || b = 0x09 || b = 0x0a || b = 0x0d

/-- Whether a byte is a decimal digit. -/
def isDigit (b : UInt8) : Bool := 0x30 ≤ b && b ≤ 0x39

/-- The number with these decimal digits. -/
def decimal (digits : Bytes) : Nat := digits.foldl (fun n b => 10 * n + (b.toNat - 48)) 0

/-- The rest after an exponent, or the same bytes if there is none; absent if it has no digits. -/
def skipExponent : Bytes → Option (Bool × Bytes)
  | [] => some (false, [])
  | e :: rest =>
      if e = 0x65 || e = 0x45 then
        let afterSign := match rest with
          | [] => []
          | s :: more => if s = 0x2b || s = 0x2d then more else rest
        if (afterSign.takeWhile isDigit).isEmpty then none
        else some (true, afterSign.dropWhile isDigit)
      else some (false, e :: rest)

/-- The rest after a fraction, or the same bytes if there is none; absent if it has no digits. -/
def skipFraction : Bytes → Option (Bool × Bytes)
  | [] => some (false, [])
  | p :: rest =>
      if p = 0x2e then
        if (rest.takeWhile isDigit).isEmpty then none
        else some (true, rest.dropWhile isDigit)
      else some (false, p :: rest)

/-- A number in front, after its sign. A whole part of several digits does not start with a zero,
    and zero with a minus sign is not an integer. -/
def scanNumber (negative : Bool) (bs : Bytes) : Option (Token × Bytes) :=
  let digits := bs.takeWhile isDigit
  -- There is a whole part, and it has no leading zero.
  if digits.isEmpty || (digits.head? == some 0x30 && digits.length != 1) then none
  else do
    let (hasFraction, rest) ← skipFraction (bs.dropWhile isDigit)
    let (hasExponent, rest) ← skipExponent rest
    let n := decimal digits
    -- `1.0`, `1e2` and `-0` are numbers, but not written as integers.
    if hasFraction || hasExponent || (negative && n == 0) then return (.otherNumber, rest)
    else return (.integer (if negative then -(n : Int) else n), rest)

/-- The value of a hexadecimal digit of either case. -/
def hexValue? (b : UInt8) : Option Nat :=
  if isDigit b then some (b.toNat - 48)
  else if 0x61 ≤ b && b ≤ 0x66 then some (b.toNat - 87)
  else if 0x41 ≤ b && b ≤ 0x46 then some (b.toNat - 55)
  else none

/-- The number of four hexadecimal digits in front. -/
def scanHex4 : Bytes → Option (Nat × Bytes)
  | a :: b :: c :: d :: rest => do
      let a ← hexValue? a
      let b ← hexValue? b
      let c ← hexValue? c
      let d ← hexValue? d
      return (4096 * a + 256 * b + 16 * c + d, rest)
  | _ => none

/-- The UTF-8 form of the character with a number. -/
def utf8OfCode (n : Nat) : Bytes := Utf8.encode (String.singleton (Char.ofNat n))

/-- What an escape of one letter stands for. -/
def simpleEscape? (b : UInt8) : Option UInt8 :=
  if b = 0x22 || b = 0x5c || b = 0x2f then some b
  else if b = 0x62 then some 0x08
  else if b = 0x66 then some 0x0c
  else if b = 0x6e then some 0x0a
  else if b = 0x72 then some 0x0d
  else if b = 0x74 then some 0x09
  else none

/-- Whether a number is the first half of a surrogate pair. -/
def isHighHalf (n : Nat) : Bool := 0xd800 ≤ n && n ≤ 0xdbff

/-- Whether a number is the second half of a surrogate pair. -/
def isLowHalf (n : Nat) : Bool := 0xdc00 ≤ n && n ≤ 0xdfff

/-- The second half of a surrogate pair, written as an escape in front. -/
def scanLowHalf : Bytes → Option (Nat × Bytes)
  | s :: u :: rest =>
      if s = 0x5c && u = 0x75 then
        match scanHex4 rest with
        | some (n, rest') => if isLowHalf n then some (n, rest') else none
        | none => none
      else none
  | _ => none

/-- What a text has in front: its end, some bytes that belong to it, or half of a pair. -/
inductive Piece where
  | done (rest : Bytes)
  | bytes (bs rest : Bytes)
  | lone (rest : Bytes)

/-- The piece of a text after the escape of a number. -/
def pieceOfCode (n : Nat) (rest : Bytes) : Piece :=
  if isHighHalf n then
    -- A first half counts only together with a second half right behind it.
    match scanLowHalf rest with
    | some (low, rest') =>
        .bytes (utf8OfCode (0x10000 + 0x400 * (n - 0xd800) + (low - 0xdc00))) rest'
    | none => .lone rest
  else if isLowHalf n then .lone rest
  else .bytes (utf8OfCode n) rest

/-- The next piece of a text; absent if the text does not go on as a text may. -/
def scanPiece : Bytes → Option Piece
  | [] => none
  | b :: rest =>
      if b = 0x22 then some (.done rest)
      else if b = 0x5c then
        match rest with
        | [] => none
        | e :: rest' =>
            if e = 0x75 then (scanHex4 rest').map fun (n, rest'') => pieceOfCode n rest''
            else (simpleEscape? e).map fun c => .bytes [c] rest'
      else if b < 0x20 then none
      -- Every other byte stands for itself, also one inside a longer UTF-8 form.
      else some (.bytes [b] rest)

/-- The text whose reversed bytes are given, unless half of a pair was seen in it. -/
def finishText (whole : Bool) (reversed : Bytes) : Option String :=
  if whole then Utf8.decode? reversed.reverse else none

/-- A text in front, after its opening quote. The fuel is at least the number of bytes. -/
def scanText : (fuel : Nat) → (whole : Bool) → (reversed : Bytes) → Bytes →
    Option (Option String × Bytes)
  | 0, _, _, _ => none
  | fuel + 1, whole, reversed, bs =>
      match scanPiece bs with
      | none => none
      | some (.done rest) => some (finishText whole reversed, rest)
      | some (.bytes piece rest) => scanText fuel whole (piece.reverse ++ reversed) rest
      | some (.lone rest) => scanText fuel false reversed rest

/-- The rest after a word in front. -/
def dropWord (word bs : Bytes) : Option Bytes :=
  if bs.take word.length = word then some (bs.drop word.length) else none

/-- The token in front, where a token must stand. The fuel is at least the number of bytes. -/
def scanOne (fuel : Nat) : Bytes → Option (Token × Bytes)
  | [] => none
  | b :: rest =>
      if b = 0x5b then some (.openArray, rest)
      else if b = 0x5d then some (.closeArray, rest)
      else if b = 0x7b then some (.openObject, rest)
      else if b = 0x7d then some (.closeObject, rest)
      else if b = 0x3a then some (.colon, rest)
      else if b = 0x2c then some (.comma, rest)
      else if b = 0x22 then
        (scanText fuel true [] rest).map fun (s, rest') => (.text s, rest')
      else if b = 0x2d then scanNumber true rest
      else if isDigit b then scanNumber false (b :: rest)
      else if b = 0x6e then
        (dropWord [0x75, 0x6c, 0x6c] rest).map fun rest' => (.null, rest')
      else if b = 0x74 then
        (dropWord [0x72, 0x75, 0x65] rest).map fun rest' => (.bool true, rest')
      else if b = 0x66 then
        (dropWord [0x61, 0x6c, 0x73, 0x65] rest).map fun rest' => (.bool false, rest')
      else none

/-- The tokens of a document, in front of those already found. The fuel is at least the number of
    bytes. -/
def scanAll : (fuel : Nat) → (reversed : List Token) → Bytes → Option (List Token)
  | 0, _, _ => none
  | fuel + 1, reversed, bs =>
      match bs.dropWhile isBlank with
      | [] => some reversed.reverse
      | b :: rest =>
          match scanOne fuel (b :: rest) with
          | some (token, rest') => scanAll fuel (token :: reversed) rest'
          | none => none

/-- The tokens of a document; absent if it holds anything but tokens and blanks. -/
def scan (bs : Bytes) : Option (List Token) := scanAll (bs.length + 1) [] bs

end Token

end CoinCommit
