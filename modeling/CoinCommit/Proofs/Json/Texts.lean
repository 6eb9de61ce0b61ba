import CoinCommit.Json.Printer
import CoinCommit.Json.Token

/-!
# Texts in Quotes

A text is written between quotes, with an escape for each character that could
not stand there, and its bytes are read piece by piece until the quote that ends
it. A character is one piece if it is escaped. If it is not it is as many as its
UTF-8 form has bytes, and none of them can be taken for the quote or for the
start of an escape, because only the first 128 characters have such bytes. So
the pieces that are read are the UTF-8 form of the text, whatever its
characters.

## Main definitions

* `Utf8.ofChars`: The bytes of some characters.
* `Token.YieldsBytes`: What is read of a text before some rest of it.

## Theorems

* `Utf8.toNat_of_mem_utf8EncodeChar`: A byte below 128 is the character.
* `Token.yieldsBytes_escape`: What is read of a character is that character.
* `Token.scanText_quote`: What is read of a text between quotes.
-/

namespace CoinCommit

namespace Utf8

/-- The bytes of some characters. -/
def ofChars (cs : List Char) : Bytes := cs.flatMap String.utf8EncodeChar

theorem ofChars_nil : ofChars [] = [] := rfl

theorem ofChars_cons (c : Char) (cs : List Char) :
    ofChars (c :: cs) = String.utf8EncodeChar c ++ ofChars cs :=
  List.flatMap_cons

theorem ofChars_append (as bs : List Char) : ofChars (as ++ bs) = ofChars as ++ ofChars bs :=
  List.flatMap_append

/-- A byte below 128 in the form of a character is the character. -/
theorem toNat_of_mem_utf8EncodeChar {c : Char} {b : UInt8} (hb : b ∈ String.utf8EncodeChar c)
    (hlow : b.toNat < 128) : c.toNat = b.toNat := by
  -- The remainder modulo 256 is what a byte keeps of a number.
  have hbyte : ∀ n : Nat, (UInt8.ofNat n).toNat = n % 256 := fun _ => rfl
  have hnum : c.val.toNat = c.toNat := rfl
  rw [String.utf8EncodeChar, hnum] at hb
  -- The first byte of a longer form starts at 192, and the others at 128.
  split at hb
  · rw [List.mem_singleton.mp hb, hbyte]
    omega
  · split at hb
    · simp only [List.mem_cons, List.not_mem_nil, or_false] at hb
      rcases hb with rfl | rfl <;> simp only [hbyte] at hlow <;> omega
    · split at hb
      · simp only [List.mem_cons, List.not_mem_nil, or_false] at hb
        rcases hb with rfl | rfl | rfl <;> simp only [hbyte] at hlow <;> omega
      · simp only [List.mem_cons, List.not_mem_nil, or_false] at hb
        rcases hb with rfl | rfl | rfl | rfl <;> simp only [hbyte] at hlow <;> omega

/-- A character below 128 is one byte. -/
theorem utf8EncodeChar_of_lt {c : Char} (h : c.toNat < 128) :
    String.utf8EncodeChar c = [UInt8.ofNat c.toNat] := by
  have hsmall : c.val.toNat ≤ 127 := by
    change c.toNat ≤ 127
    omega
  rw [String.utf8EncodeChar, if_pos hsmall]
  rfl

end Utf8

namespace Token

/-- Of a text that goes on with some bytes these are read, and a rest is left. There is fuel for the
    rest if there was for the whole. -/
def YieldsBytes (read bs rest : Bytes) : Prop :=
  ∀ (fuel : Nat) (whole : Bool) (reversed : Bytes), bs.length < fuel →
    ∃ fuel', rest.length < fuel' ∧
      scanText fuel whole reversed bs = scanText fuel' whole (read.reverse ++ reversed) rest

namespace YieldsBytes

variable {read read' bs rest rest' : Bytes}

theorem refl (bs : Bytes) : YieldsBytes [] bs bs := by
  -- Nothing is read, and the fuel is still there.
  intro fuel whole reversed hfuel
  exact ⟨fuel, hfuel, rfl⟩

theorem trans (h : YieldsBytes read bs rest) (h' : YieldsBytes read' rest rest') :
    YieldsBytes (read ++ read') bs rest' := by
  intro fuel whole reversed hfuel
  rcases h fuel whole reversed hfuel with ⟨fuel₁, hfuel₁, hfirst⟩
  rcases h' fuel₁ whole (read.reverse ++ reversed) hfuel₁ with ⟨fuel₂, hfuel₂, hsecond⟩
  refine ⟨fuel₂, hfuel₂, ?_⟩
  rw [hfirst, hsecond, List.reverse_append, List.append_assoc]

/-- A piece takes one step. -/
theorem of_scanPiece (h : scanPiece bs = some (.bytes read rest)) (hlt : rest.length < bs.length) :
    YieldsBytes read bs rest := by
  intro fuel whole reversed hfuel
  cases fuel with
  | zero => exact absurd hfuel (Nat.not_lt_zero _)
  | succ fuel =>
      refine ⟨fuel, by omega, ?_⟩
      rw [scanText, h]

end YieldsBytes

/-- A byte that neither ends the text nor starts an escape stands for itself. -/
theorem yieldsBytes_plain {b : UInt8} (hquote : b ≠ 0x22) (hescape : b ≠ 0x5c) (hlow : ¬ b < 0x20)
    (rest : Bytes) : YieldsBytes [b] (b :: rest) rest := by
  refine YieldsBytes.of_scanPiece ?_ (Nat.lt_succ_self rest.length)
  simp only [scanPiece, if_neg hquote, if_neg hescape, if_neg hlow]

theorem yieldsBytes_plains {bs : Bytes} (h : ∀ b ∈ bs, b ≠ 0x22 ∧ b ≠ 0x5c ∧ ¬ b < 0x20)
    (rest : Bytes) : YieldsBytes bs (bs ++ rest) rest := by
  induction bs with
  | nil => exact YieldsBytes.refl rest
  | cons b bs ih =>
      rcases h b List.mem_cons_self with ⟨hquote, hescape, hlow⟩
      exact (yieldsBytes_plain hquote hescape hlow (bs ++ rest)).trans
        (ih fun b' hb => h b' (List.mem_cons_of_mem b hb))

theorem yieldsBytes_simple {e b : UInt8} (he : e ≠ 0x75) (h : simpleEscape? e = some b)
    (rest : Bytes) : YieldsBytes [b] (0x5c :: e :: rest) rest := by
  refine YieldsBytes.of_scanPiece ?_ ?_
  · have hstart : (0x5c : UInt8) ≠ 0x22 := by decide
    simp only [scanPiece, if_neg hstart, if_neg he, h, if_true, Option.map_some]
  · simp only [List.length_cons]
    omega

/-- A digit that is written is read with its value. -/
theorem hexValue?_hexDigit : ∀ n, n < 16 →
    hexValue? (UInt8.ofNat (Json.hexDigit n).toNat) = some n ∧ (Json.hexDigit n).toNat < 128 := by
  decide

/-- A control character is written by its number. -/
theorem yieldsBytes_number {c : Char} (hlow : c.toNat < 0x20) (rest : Bytes) :
    YieldsBytes (String.utf8EncodeChar c)
      (Utf8.ofChars ['\\', 'u', '0', '0', Json.hexDigit (c.toNat / 16),
        Json.hexDigit (c.toNat % 16)] ++ rest) rest := by
  -- Four digits are written, of which the first two are zeros.
  rcases hexValue?_hexDigit (c.toNat / 16) (by omega) with ⟨hhigh, hhigh'⟩
  rcases hexValue?_hexDigit (c.toNat % 16) (by omega) with ⟨hrest, hrest'⟩
  have hbytes : Utf8.ofChars ['\\', 'u', '0', '0', Json.hexDigit (c.toNat / 16),
      Json.hexDigit (c.toNat % 16)] =
      [0x5c, 0x75, 0x30, 0x30, UInt8.ofNat (Json.hexDigit (c.toNat / 16)).toNat,
        UInt8.ofNat (Json.hexDigit (c.toNat % 16)).toNat] := by
    simp only [Utf8.ofChars_cons, Utf8.ofChars_nil, Utf8.utf8EncodeChar_of_lt hhigh',
      Utf8.utf8EncodeChar_of_lt hrest']
    rfl
  have hzero : hexValue? 0x30 = some 0 := rfl
  have hcode : 4096 * 0 + 256 * 0 + 16 * (c.toNat / 16) + c.toNat % 16 = c.toNat := by omega
  -- No control character is half of a pair, so its number stands for the character alone.
  have hplain : pieceOfCode c.toNat rest = .bytes (String.utf8EncodeChar c) rest := by
    have hhigh : isHighHalf c.toNat = false := by
      rw [isHighHalf, decide_eq_false (by omega), Bool.false_and]
    have hlow : isLowHalf c.toNat = false := by
      rw [isLowHalf, decide_eq_false (by omega), Bool.false_and]
    rw [pieceOfCode, hhigh, hlow, utf8OfCode, Char.ofNat_toNat, String.singleton_eq_ofList,
      Utf8.encode_ofList, List.flatMap_singleton]
    rfl
  rw [hbytes]
  refine YieldsBytes.of_scanPiece ?_ ?_
  · have hstart : (0x5c : UInt8) ≠ 0x22 := by decide
    have hnumber : scanHex4 (0x30 :: 0x30 :: UInt8.ofNat (Json.hexDigit (c.toNat / 16)).toNat ::
        UInt8.ofNat (Json.hexDigit (c.toNat % 16)).toNat :: rest) = some (c.toNat, rest) := by
      simp only [scanHex4, hzero, hhigh, hrest, Option.bind_eq_bind, Option.bind_some, hcode,
        Option.pure_def]
    simp only [List.cons_append, List.nil_append, scanPiece, if_neg hstart, if_true, hnumber,
      Option.map_some, hplain]
  · simp only [List.cons_append, List.nil_append, List.length_cons]
    omega

/-- What is read of a character that is written is the character. -/
theorem yieldsBytes_escape (c : Char) (rest : Bytes) :
    YieldsBytes (String.utf8EncodeChar c) (Utf8.ofChars (Json.escape c) ++ rest) rest := by
  by_cases hshort : c ∈ ['"', '\\', '\n', '\r', '\t', '\x08', '\x0c']
  · simp only [List.mem_cons, List.not_mem_nil, or_false] at hshort
    -- Each of these has an escape of one letter, and the letter stands for its byte.
    rcases hshort with rfl | rfl | rfl | rfl | rfl | rfl | rfl <;>
      exact yieldsBytes_simple (by decide) rfl rest
  · simp only [List.mem_cons, List.not_mem_nil, or_false, not_or] at hshort
    rcases hshort with ⟨hquote, hbackslash, hline, hreturn, htab, hback, hfeed⟩
    rw [Json.escape, if_neg hquote, if_neg hbackslash, if_neg hline, if_neg hreturn, if_neg htab,
      if_neg hback, if_neg hfeed]
    by_cases hlow : c.toNat < 0x20
    · -- A control character without a letter of its own.
      rw [if_pos hlow]
      exact yieldsBytes_number hlow rest
    · rw [if_neg hlow, Utf8.ofChars_cons, Utf8.ofChars_nil, List.append_nil]
      refine yieldsBytes_plains (fun b hb => ⟨?_, ?_, ?_⟩) rest
      -- A byte that means something inside a text is below 128, and then it is the character.
      · rintro rfl
        exact hquote (Char.toNat_inj.mp (Utf8.toNat_of_mem_utf8EncodeChar hb (by decide)))
      · rintro rfl
        exact hbackslash (Char.toNat_inj.mp (Utf8.toNat_of_mem_utf8EncodeChar hb (by decide)))
      · intro hb'
        have hbyte : b.toNat < 0x20 := UInt8.lt_iff_toNat_lt.mp hb'
        have hchar := Utf8.toNat_of_mem_utf8EncodeChar hb (by omega)
        omega

theorem yieldsBytes_escapes (cs : List Char) (rest : Bytes) :
    YieldsBytes (Utf8.ofChars cs) (Utf8.ofChars (cs.flatMap Json.escape) ++ rest) rest := by
  induction cs with
  | nil => exact YieldsBytes.refl rest
  | cons c cs ih =>
      rw [List.flatMap_cons, Utf8.ofChars_append, Utf8.ofChars_cons, List.append_assoc]
      exact (yieldsBytes_escape c _).trans ih

/-- What is read between the quotes of a text is the text. -/
theorem scanText_quote (s : String) {fuel : Nat} (rest : Bytes)
    (hfuel : (Utf8.ofChars (s.toList.flatMap Json.escape) ++ 0x22 :: rest).length < fuel) :
    scanText fuel true [] (Utf8.ofChars (s.toList.flatMap Json.escape) ++ 0x22 :: rest) =
      some (some s, rest) := by
  rcases yieldsBytes_escapes s.toList (0x22 :: rest) fuel true [] hfuel with
    ⟨fuel', hfuel', hread⟩
  -- The bytes that are gathered are those of the text, so it is found again.
  have hbytes : Utf8.ofChars s.toList = Utf8.encode s := by
    rw [Utf8.ofChars, ← Utf8.encode_ofList, String.ofList_toList]
  rw [hread]
  cases fuel' with
  | zero => exact absurd hfuel' (Nat.not_lt_zero _)
  | succ fuel' =>
      have hend : scanPiece (0x22 :: rest) = some (.done rest) := by
        simp only [scanPiece, if_true]
      rw [scanText, hend]
      simp only [finishText, if_true, List.append_nil, List.reverse_reverse, hbytes,
        Utf8.decode?_encode]

end Token

end CoinCommit
