import CoinCommit.Bytes.LittleEndian

/-!
# SHA-512

The hash inside the signature scheme. A message is padded to whole blocks of
128 bytes; each block gives 16 words, which a running window stretches to 80,
and every word drives one round on the eight words of the state.

## Main definitions

* `Sha512.State`: The eight words.
* `Sha512.compress`: The state after a block.
* `sha512`: The 64 bytes of the digest.
-/

namespace CoinCommit

namespace Sha512

/-- The eight words that a block changes. -/
structure State where
  a : UInt64
  b : UInt64
  c : UInt64
  d : UInt64
  e : UInt64
  f : UInt64
  g : UInt64
  h : UInt64

/-- The state before the first block. -/
def start : State :=
  ⟨0x6a09e667f3bcc908, 0xbb67ae8584caa73b, 0x3c6ef372fe94f82b, 0xa54ff53a5f1d36f1,
    0x510e527fade682d1, 0x9b05688c2b3e6c1f, 0x1f83d9abfb41bd6b, 0x5be0cd19137e2179⟩

/-- The constants of the 80 rounds. -/
def roundConstants : List UInt64 :=
  [0x428a2f98d728ae22, 0x7137449123ef65cd, 0xb5c0fbcfec4d3b2f, 0xe9b5dba58189dbbc,
    0x3956c25bf348b538, 0x59f111f1b605d019, 0x923f82a4af194f9b, 0xab1c5ed5da6d8118,
    0xd807aa98a3030242, 0x12835b0145706fbe, 0x243185be4ee4b28c, 0x550c7dc3d5ffb4e2,
    0x72be5d74f27b896f, 0x80deb1fe3b1696b1, 0x9bdc06a725c71235, 0xc19bf174cf692694,
    0xe49b69c19ef14ad2, 0xefbe4786384f25e3, 0x0fc19dc68b8cd5b5, 0x240ca1cc77ac9c65,
    0x2de92c6f592b0275, 0x4a7484aa6ea6e483, 0x5cb0a9dcbd41fbd4, 0x76f988da831153b5,
    0x983e5152ee66dfab, 0xa831c66d2db43210, 0xb00327c898fb213f, 0xbf597fc7beef0ee4,
    0xc6e00bf33da88fc2, 0xd5a79147930aa725, 0x06ca6351e003826f, 0x142929670a0e6e70,
    0x27b70a8546d22ffc, 0x2e1b21385c26c926, 0x4d2c6dfc5ac42aed, 0x53380d139d95b3df,
    0x650a73548baf63de, 0x766a0abb3c77b2a8, 0x81c2c92e47edaee6, 0x92722c851482353b,
    0xa2bfe8a14cf10364, 0xa81a664bbc423001, 0xc24b8b70d0f89791, 0xc76c51a30654be30,
    0xd192e819d6ef5218, 0xd69906245565a910, 0xf40e35855771202a, 0x106aa07032bbd1b8,
    0x19a4c116b8d2d0c8, 0x1e376c085141ab53, 0x2748774cdf8eeb99, 0x34b0bcb5e19b48a8,
    0x391c0cb3c5c95a63, 0x4ed8aa4ae3418acb, 0x5b9cca4f7763e373, 0x682e6ff3d6b2b8a3,
    0x748f82ee5defb2fc, 0x78a5636f43172f60, 0x84c87814a1f0ab72, 0x8cc702081a6439ec,
    0x90befffa23631e28, 0xa4506cebde82bde9, 0xbef9a3f7b2c67915, 0xc67178f2e372532b,
    0xca273eceea26619c, 0xd186b8c721c0c207, 0xeada7dd6cde0eb1e, 0xf57d4f7fee6ed178,
    0x06f067aa72176fba, 0x0a637dc5a2c898a6, 0x113f9804bef90dae, 0x1b710b35131c471b,
    0x28db77f523047d84, 0x32caab7b40c72493, 0x3c9ebe0a15c9bebc, 0x431d67c49c100d4c,
    0x4cc5d4becb3e42b6, 0x597f299cfc657e2a, 0x5fcb6fab3ad6faec, 0x6c44198c4a475817]

/-- A word turned towards its low end by `n` bits, for `0 < n < 64`. -/
def turn (word n : UInt64) : UInt64 := (word >>> n) ||| (word <<< (64 - n))

/-- The word that follows a window of 16 words. -/
def nextWord : List UInt64 → UInt64
  | w0 :: w1 :: _ :: _ :: _ :: _ :: _ :: _ :: _ :: w9 :: _ :: _ :: _ :: _ :: w14 :: _ =>
      w0 + (turn w1 1 ^^^ turn w1 8 ^^^ (w1 >>> 7)) + w9 +
        (turn w14 19 ^^^ turn w14 61 ^^^ (w14 >>> 6))
  | _ => 0

/-- One round with the sum of its constant and its word. -/
def round (s : State) (added : UInt64) : State :=
  let t1 := s.h + (turn s.e 14 ^^^ turn s.e 18 ^^^ turn s.e 41) +
    ((s.e &&& s.f) ^^^ (~~~s.e &&& s.g)) + added
  let t2 := (turn s.a 28 ^^^ turn s.a 34 ^^^ turn s.a 39) +
    ((s.a &&& s.b) ^^^ (s.a &&& s.c) ^^^ (s.b &&& s.c))
  ⟨t1 + t2, s.a, s.b, s.c, s.d + t1, s.e, s.f, s.g⟩

/-- The rounds with the given constants, on a window whose first word is the next to be used. -/
def rounds (s : State) (window : List UInt64) : List UInt64 → State
  | [] => s
  | k :: ks =>
      -- The window moves on by one word: its first is used up, and the word after its last is
      -- computed from those inside.
      rounds (round s (k + window.headD 0)) (window.drop 1 ++ [nextWord window]) ks

/-- The state after a block of 16 words. -/
def compress (s : State) (block : List UInt64) : State :=
  let t := rounds s block roundConstants
  ⟨s.a + t.a, s.b + t.b, s.c + t.c, s.d + t.d, s.e + t.e, s.f + t.f, s.g + t.g, s.h + t.h⟩

/-- The bytes of a number, the most significant first. -/
def bigEndian (width n : Nat) : Bytes := (LittleEndian.encode width n).reverse

/-- The padding of a message of a given length: a bit, zeros, and the length in bits. -/
def padding (length : Nat) : Bytes :=
  0x80 :: List.replicate ((239 - length % 128) % 128) 0 ++ bigEndian 16 (8 * length)

/-- The words of a byte string, eight bytes each. -/
def wordsOf : Bytes → List UInt64
  | b0 :: b1 :: b2 :: b3 :: b4 :: b5 :: b6 :: b7 :: rest =>
      LittleEndian.toUInt64 [b7, b6, b5, b4, b3, b2, b1, b0] :: wordsOf rest
  | _ => []

/-- The state after all whole blocks of a list of words. -/
def absorb (s : State) (words : List UInt64) : State :=
  if words.length < 16 then s else absorb (compress s (words.take 16)) (words.drop 16)
termination_by words.length
decreasing_by
  simp only [List.length_drop]
  omega

end Sha512

/-- The SHA-512 digest of a message, 64 bytes. -/
def sha512 (message : Bytes) : Bytes :=
  let s := Sha512.absorb Sha512.start
    (Sha512.wordsOf (message ++ Sha512.padding message.length))
  [s.a, s.b, s.c, s.d, s.e, s.f, s.g, s.h].flatMap fun word => Sha512.bigEndian 8 word.toNat

end CoinCommit
