import CoinCommit.Proofs.Json.Texts

/-!
# Integers in Digits

An integer is written as its decimal digits, after a minus sign if it is below
zero. Nothing ends a number but what stands behind it, so the digits are read as
that integer only if no digit follows, and no point and no exponent either. The
digits are those of the number itself: a zero stands in front of no others, and
there is no zero with a sign.

## Main definitions

* `Token.Stops`: Bytes that end a number in front of them.
* `Token.Decimal`: The digits of a number.

## Theorems

* `Token.decimal_repr`: The digits that are written are those of the number.
* `Token.scanNumber_of_decimal`: Digits are read as their number.
-/

namespace CoinCommit

namespace Token

/-- A number in front of the bytes ends there. -/
def Stops (rest : Bytes) : Prop :=
  ∀ b ∈ rest.head?, isDigit b = false ∧ b ≠ 0x2e ∧ b ≠ 0x65 ∧ b ≠ 0x45

/-- The bytes are the digits of a number, as a reader of integers wants them. -/
structure Decimal (ds : Bytes) (n : Nat) : Prop where
  digits : ∀ b ∈ ds, isDigit b = true
  nonempty : ds ≠ []
  leading : ds.head? = some 0x30 → ds = [0x30]
  value : decimal ds = n

theorem decimal_append (ds : Bytes) (b : UInt8) :
    decimal (ds ++ [b]) = 10 * decimal ds + (b.toNat - 48) := by
  rw [decimal, List.foldl_append]
  rfl

/-- A digit that is written is one byte with its value. -/
theorem digitChar_spec : ∀ n, n < 10 →
    n.digitChar.toNat < 128 ∧ isDigit (UInt8.ofNat n.digitChar.toNat) = true ∧
      (UInt8.ofNat n.digitChar.toNat).toNat - 48 = n := by
  decide

theorem ofChars_digitChar {n : Nat} (h : n < 10) :
    Utf8.ofChars [n.digitChar] = [UInt8.ofNat n.digitChar.toNat] := by
  rw [Utf8.ofChars_cons, Utf8.utf8EncodeChar_of_lt (digitChar_spec n h).1, Utf8.ofChars_nil]
  rfl

theorem decimal_single {n : Nat} (h : n < 10) :
    Decimal [UInt8.ofNat n.digitChar.toNat] n := by
  rcases digitChar_spec n h with ⟨_, hdigit, hvalue⟩
  constructor
  case digits =>
    intro b hb
    rwa [List.mem_singleton.mp hb]
  case nonempty => exact List.cons_ne_nil _ _
  case leading =>
    intro hzero
    -- A zero is the only digit.
    rw [List.head?_cons, Option.some.injEq] at hzero
    rw [hzero]
  case value =>
    have hstep := decimal_append [] (UInt8.ofNat n.digitChar.toNat)
    rw [List.nil_append, hvalue] at hstep
    rw [hstep, decimal, List.foldl_nil]
    omega

/-- One more digit makes ten times the number and the digit. No zero is in front then, unless the
    number was zero. -/
theorem Decimal.append {ds : Bytes} {m n : Nat} (h : Decimal ds m) (hm : 0 < m) (hn : n < 10) :
    Decimal (ds ++ [UInt8.ofNat n.digitChar.toNat]) (10 * m + n) := by
  rcases digitChar_spec n hn with ⟨_, hdigit, hvalue⟩
  constructor
  case digits =>
    intro b hb
    rcases List.mem_append.mp hb with hb | hb
    · -- The digits that were there, and the one that is added.
      exact h.digits b hb
    · rwa [List.mem_singleton.mp hb]
  case nonempty => exact List.append_ne_nil_of_left_ne_nil h.nonempty _
  case leading =>
    intro hzero
    -- The first digit is the one that was first.
    rw [List.head?_append, Option.or_of_isSome (List.isSome_head?.mpr h.nonempty)] at hzero
    have hvalue := h.value
    rw [h.leading hzero] at hvalue
    -- A single zero has the value zero.
    exact absurd hvalue (Nat.ne_of_lt hm)
  case value => rw [decimal_append, h.value, hvalue]

/-- The digits that are written of a number are its digits. -/
theorem decimal_repr (n : Nat) : Decimal (Utf8.ofChars (Nat.repr n).toList) n := by
  rw [Nat.toList_repr]
  induction n using Nat.strongRecOn with
  | ind n ih =>
      rcases Nat.lt_or_ge n 10 with hlt | hge
      · -- A number below ten has one digit.
        rw [Nat.toDigits_of_lt_base hlt, ofChars_digitChar hlt]
        exact decimal_single hlt
      · -- All digits but the last are those of the tenth part, which is not zero.
        have hlast : n % 10 < 10 := Nat.mod_lt n (by omega)
        have hnumber : 10 * (n / 10) + n % 10 = n := Nat.div_add_mod n 10
        have happend := (ih (n / 10) (by omega)).append (by omega) hlast
        rw [hnumber, ← ofChars_digitChar hlast, ← Utf8.ofChars_append] at happend
        rwa [Nat.toDigits_of_base_le (by omega) hge]

section

variable {rest : Bytes}

theorem Stops.takeWhile (h : Stops rest) : rest.takeWhile isDigit = [] := by
  cases rest with
  | nil => rfl
  | cons b rest => rw [List.takeWhile_cons, (h b rfl).1, if_neg Bool.false_ne_true]

theorem Stops.dropWhile (h : Stops rest) : rest.dropWhile isDigit = rest := by
  cases rest with
  | nil => rfl
  | cons b rest => rw [List.dropWhile_cons, (h b rfl).1, if_neg Bool.false_ne_true]

theorem Stops.skipFraction (h : Stops rest) : skipFraction rest = some (false, rest) := by
  cases rest with
  | nil => rfl
  | cons b rest => rw [Token.skipFraction, if_neg (h b rfl).2.1]

theorem Stops.skipExponent (h : Stops rest) : skipExponent rest = some (false, rest) := by
  cases rest with
  | nil => rfl
  | cons b rest =>
      rcases h b rfl with ⟨_, _, hlower, hupper⟩
      simp only [Token.skipExponent, decide_eq_false hlower, decide_eq_false hupper, Bool.or_false,
        Bool.false_eq_true, if_false]

/-- Digits are read as their number, with a sign if the number is not zero. -/
theorem scanNumber_of_decimal {ds : Bytes} {n : Nat} (hds : Decimal ds n) (negative : Bool)
    (hsign : negative = true → n ≠ 0) (hrest : Stops rest) :
    scanNumber negative (ds ++ rest) =
      some (.integer (if negative then -(n : Int) else n), rest) := by
  -- The digits are taken up to the rest, which has neither a fraction nor an exponent in front.
  have htake : (ds ++ rest).takeWhile isDigit = ds := by
    rw [List.takeWhile_append_of_pos hds.digits, hrest.takeWhile, List.append_nil]
  have hdrop : (ds ++ rest).dropWhile isDigit = rest := by
    rw [List.dropWhile_append_of_pos hds.digits, hrest.dropWhile]
  have hwell : (ds.isEmpty || (ds.head? == some 0x30 && ds.length != 1)) = false := by
    rw [List.isEmpty_eq_false_iff.mpr hds.nonempty, Bool.false_or]
    -- Only zero itself starts with a zero.
    by_cases hzero : ds.head? = some 0x30
    · rw [hds.leading hzero]
      rfl
    · rw [beq_eq_false_iff_ne.mpr hzero, Bool.false_and]
  have hsigned : (negative && n == 0) = false := by
    cases negative with
    | false => rfl
    | true => rw [Bool.true_and, beq_eq_false_iff_ne.mpr (hsign rfl)]
  rw [scanNumber, htake, hdrop, hwell, hrest.skipFraction]
  simp only [Bool.false_eq_true, if_false, Option.bind_eq_bind, Option.bind_some,
    hrest.skipExponent, hds.value, hsigned, Bool.or_false, Option.pure_def]

end

end Token

end CoinCommit
