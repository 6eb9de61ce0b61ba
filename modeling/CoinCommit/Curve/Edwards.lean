import CoinCommit.Bytes.LittleEndian
import CoinCommit.Curve.Field

/-!
# Points of the Curve

The points of the twisted Edwards curve `-x² + y² = 1 + d x² y²`. A point is
kept in extended coordinates, in which one formula adds any two points without
dividing. Its 32 bytes are its `y` with the parity of its `x` in the top bit;
reading them reduces `y`, so that a few points have more than one form.

## Main definitions

* `Point`: A point in extended coordinates.
* `Point.add`, `Point.double`, `Point.neg`, `Point.mul`: The group.
* `Point.base`: The generator of the large subgroup.
* `Point.encode`, `Point.decode?`: Bytes and points.
* `Point.isSmallOrder`: Whether eight times the point vanishes.
-/

namespace CoinCommit

/-- A point in extended coordinates: `x = X / Z`, `y = Y / Z` and `x y = T / Z`. -/
structure Point where
  x : Fe
  y : Fe
  z : Fe
  t : Fe

namespace Point

/-- The constant `d` of the curve. -/
def d : Fe :=
  Fe.ofNat 37095705934669439343138083508754565189542113879843219016388785533085940283555

/-- The neutral point. -/
def zero : Point := ⟨Fe.zero, Fe.one, Fe.one, Fe.zero⟩

/-- The sum of two points. -/
def add (p q : Point) : Point :=
  let a := (p.y - p.x) * (q.y - q.x)
  let b := (p.y + p.x) * (q.y + q.x)
  let c := p.t * q.t * (d + d)
  let m := p.z * q.z
  let e := b - a
  let f := m + m - c
  let g := m + m + c
  let h := b + a
  ⟨e * f, g * h, f * g, e * h⟩

/-- Twice a point. -/
def double (p : Point) : Point :=
  let a := p.x * p.x
  let b := p.y * p.y
  let c := p.z * p.z
  let s := p.x + p.y
  let h := a + b
  let e := h - s * s
  let g := a - b
  let f := c + c + g
  ⟨e * f, g * h, f * g, e * h⟩

/-- The negative of a point. -/
def neg (p : Point) : Point := ⟨-p.x, p.y, p.z, -p.t⟩

/-- A multiple of a point. -/
def mul (n : Nat) (p : Point) : Point :=
  if n = 0 then zero
  else
    let half := mul (n / 2) p
    if n % 2 = 1 then add (double half) p else double half
termination_by n

/-- The point with given coordinates. -/
def ofAffine (x y : Fe) : Point := ⟨x, y, Fe.one, x * y⟩

/-- The generator. -/
def base : Point :=
  ofAffine
    (Fe.ofNat 15112221349535400772501151409588531511454012693041857206046113283949847762202)
    (Fe.ofNat 46316835694926478169428394003475163141307993866256225615783033603165251855960)

/-- The order of the generator, a prime. -/
def baseOrder : Nat := 0x1000000000000000000000000000000014def9dea2f79cd65812631a5cf5d3ed

/-- The value of the top bit of 32 bytes. -/
def topBit : Nat := 0x8000000000000000000000000000000000000000000000000000000000000000

/-- The 32 bytes of a point: its `y`, and the parity of its `x` in the top bit. -/
def encode (p : Point) : Bytes32 :=
  let zi := p.z.inv
  let sign := if Fe.isOdd (p.x * zi) then topBit else 0
  ⟨LittleEndian.encode 32 ((p.y * zi).val + sign), LittleEndian.length_encode 32 _⟩

/-- The point with these bytes, if the curve has one with this `y`. The top bit chooses between
    `x` and its negative; it is allowed where both are zero, and `y` need not be reduced. -/
def decode? (bs : Bytes32) : Option Point := do
  let n := LittleEndian.decode bs.bytes
  -- Below the top bit stands `y`, which may exceed the modulus by a little.
  let y := Fe.ofNat (n % topBit)
  let x ← Fe.sqrtRatio? (y * y - Fe.one) (d * (y * y) + Fe.one)
  return ofAffine (if topBit ≤ n then -x else x) y

/-- Whether the point is the neutral one. -/
def isZero (p : Point) : Bool := p.x = Fe.zero && p.y = p.z

/-- Whether eight times the point is the neutral one. -/
def isSmallOrder (p : Point) : Bool := p.double.double.double.isZero

end Point

end CoinCommit
