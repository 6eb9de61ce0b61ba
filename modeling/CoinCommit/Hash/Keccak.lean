/-!
# The Keccak Permutation

The permutation behind SHA-3 works on 25 lanes of 64 bits, arranged in five
rows of five. It repeats one round 24 times: mix the columns (`theta`), turn
each lane by its own amount (`rho`), move the lanes (`pi`), combine each row
with its neighbours (`chi`) and add the round's constant.

A state is kept as its rows, so that the steps that act on whole rows are
written once for a row and used five times.

## Main definitions

* `Keccak.Row`, `Keccak.State`: Five lanes, and five rows of them.
* `Keccak.round`: One round with its constant.
* `Keccak.permute`: All 24 rounds.
-/

namespace CoinCommit

namespace Keccak

/-- Five lanes. -/
structure Row where
  a : UInt64
  b : UInt64
  c : UInt64
  d : UInt64
  e : UInt64
deriving DecidableEq

namespace Row

/-- The row of zero lanes. -/
def zero : Row := ⟨0, 0, 0, 0, 0⟩

/-- The lane-wise sum of two rows. -/
def xor (r s : Row) : Row := ⟨r.a ^^^ s.a, r.b ^^^ s.b, r.c ^^^ s.c, r.d ^^^ s.d, r.e ^^^ s.e⟩

/-- A lane turned towards its high end by `n` bits, for `0 < n < 64`. -/
def turn (lane n : UInt64) : UInt64 := (lane <<< n) ||| (lane >>> (64 - n))

/-- Every lane plus the product of its right neighbour's complement and the lane after that. -/
def chi (r : Row) : Row :=
  ⟨r.a ^^^ (~~~r.b &&& r.c), r.b ^^^ (~~~r.c &&& r.d), r.c ^^^ (~~~r.d &&& r.e),
    r.d ^^^ (~~~r.e &&& r.a), r.e ^^^ (~~~r.a &&& r.b)⟩

/-- What `theta` adds to every row, from the sum of the rows: the column to the left and the
    column to the right turned by one bit. -/
def parity (s : Row) : Row :=
  ⟨s.e ^^^ turn s.b 1, s.a ^^^ turn s.c 1, s.b ^^^ turn s.d 1, s.c ^^^ turn s.e 1,
    s.d ^^^ turn s.a 1⟩

end Row

/-- Five rows of lanes. -/
structure State where
  r0 : Row
  r1 : Row
  r2 : Row
  r3 : Row
  r4 : Row
deriving DecidableEq

namespace State

/-- The state of zero lanes. -/
def zero : State := ⟨Row.zero, Row.zero, Row.zero, Row.zero, Row.zero⟩

/-- The lane-wise sum of two states. -/
def xor (s t : State) : State :=
  ⟨s.r0.xor t.r0, s.r1.xor t.r1, s.r2.xor t.r2, s.r3.xor t.r3, s.r4.xor t.r4⟩

end State

/-- Column mixing: each lane receives the parities of its two neighbouring columns. -/
def theta (s : State) : State :=
  -- The sum of the rows holds the parity of every column.
  let p := ((((s.r0.xor s.r1).xor s.r2).xor s.r3).xor s.r4).parity
  ⟨s.r0.xor p, s.r1.xor p, s.r2.xor p, s.r3.xor p, s.r4.xor p⟩

/-- Each lane turned by the amount that belongs to its place. -/
def rho (s : State) : State :=
  ⟨⟨s.r0.a, Row.turn s.r0.b 1, Row.turn s.r0.c 62, Row.turn s.r0.d 28, Row.turn s.r0.e 27⟩,
    ⟨Row.turn s.r1.a 36, Row.turn s.r1.b 44, Row.turn s.r1.c 6, Row.turn s.r1.d 55,
      Row.turn s.r1.e 20⟩,
    ⟨Row.turn s.r2.a 3, Row.turn s.r2.b 10, Row.turn s.r2.c 43, Row.turn s.r2.d 25,
      Row.turn s.r2.e 39⟩,
    ⟨Row.turn s.r3.a 41, Row.turn s.r3.b 45, Row.turn s.r3.c 15, Row.turn s.r3.d 21,
      Row.turn s.r3.e 8⟩,
    ⟨Row.turn s.r4.a 18, Row.turn s.r4.b 2, Row.turn s.r4.c 61, Row.turn s.r4.d 56,
      Row.turn s.r4.e 14⟩⟩

/-- The lanes moved: each new row takes one lane of every old row, along a diagonal. -/
def pi (s : State) : State :=
  ⟨⟨s.r0.a, s.r1.b, s.r2.c, s.r3.d, s.r4.e⟩,
    ⟨s.r0.d, s.r1.e, s.r2.a, s.r3.b, s.r4.c⟩,
    ⟨s.r0.b, s.r1.c, s.r2.d, s.r3.e, s.r4.a⟩,
    ⟨s.r0.e, s.r1.a, s.r2.b, s.r3.c, s.r4.d⟩,
    ⟨s.r0.c, s.r1.d, s.r2.e, s.r3.a, s.r4.b⟩⟩

/-- Every row combined with itself. -/
def chi (s : State) : State := ⟨s.r0.chi, s.r1.chi, s.r2.chi, s.r3.chi, s.r4.chi⟩

/-- The round's constant added to the first lane. -/
def addConstant (k : UInt64) (s : State) : State := { s with r0 := { s.r0 with a := s.r0.a ^^^ k } }

/-- One round with its constant. -/
def round (s : State) (k : UInt64) : State := addConstant k (chi (pi (rho (theta s))))

/-- The constants of the 24 rounds, in order. -/
def roundConstants : List UInt64 :=
  [0x0000000000000001, 0x0000000000008082, 0x800000000000808a, 0x8000000080008000,
    0x000000000000808b, 0x0000000080000001, 0x8000000080008081, 0x8000000000008009,
    0x000000000000008a, 0x0000000000000088, 0x0000000080008009, 0x000000008000000a,
    0x000000008000808b, 0x800000000000008b, 0x8000000000008089, 0x8000000000008003,
    0x8000000000008002, 0x8000000000000080, 0x000000000000800a, 0x800000008000000a,
    0x8000000080008081, 0x8000000000008080, 0x0000000080000001, 0x8000000080008008]

/-- The permutation: all rounds in order. -/
def permute (s : State) : State := roundConstants.foldl round s

end Keccak

end CoinCommit
