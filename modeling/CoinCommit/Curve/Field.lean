/-!
# The Field of the Curve

Arithmetic modulo 2^255 - 19, the field over which the signature curve is
defined. Elements are numbers below the modulus.

## Main definitions

* `Fe`: An element.
* `Fe.pow`: A power, by squaring.
* `Fe.inv`: The inverse, and zero of zero.
* `Fe.sqrtRatio?`: An even square root of a quotient.
-/

namespace CoinCommit

/-- The modulus of the field, the prime 2^255 - 19. -/
def fieldPrime : Nat := 0x7fffffffffffffffffffffffffffffffffffffffffffffffffffffffffffffed

/-- An element of the field. -/
abbrev Fe := Fin fieldPrime

namespace Fe

/-- The element that a number stands for. -/
def ofNat (n : Nat) : Fe := ⟨n % fieldPrime, Nat.mod_lt n (Nat.succ_pos (fieldPrime - 1))⟩

/-- The neutral element of addition. -/
def zero : Fe := ofNat 0

/-- The neutral element of multiplication. -/
def one : Fe := ofNat 1

/-- A power of an element. -/
def pow (a : Fe) (n : Nat) : Fe :=
  if n = 0 then one
  else
    let half := pow a (n / 2)
    if n % 2 = 1 then half * half * a else half * half
termination_by n

/-- The inverse of an element, by the little theorem of Fermat. -/
def inv (a : Fe) : Fe := pow a (fieldPrime - 2)

/-- Whether the number of an element is odd, which tells an element from its negative. -/
def isOdd (a : Fe) : Bool := a.val % 2 = 1

/-- A square root of minus one. -/
def sqrtMinusOne : Fe := pow (ofNat 2) ((fieldPrime - 1) / 4)

/-- The even square root of `u / v`, if the quotient is a square; zero has itself. -/
def sqrtRatio? (u v : Fe) : Option Fe :=
  -- The candidate `u v³ (u v⁷)^((p - 5) / 8)` is a root of the quotient or of its negative, if
  -- either of them is a square, and costs one power instead of an inverse and a root.
  let v3 := v * v * v
  let r := u * v3 * pow (u * v3 * v3 * v) ((fieldPrime - 5) / 8)
  let even := fun x : Fe => if isOdd x then -x else x
  if v * r * r = u then some (even r)
  else if v * r * r = -u then some (even (r * sqrtMinusOne))
  else none

end Fe

end CoinCommit
