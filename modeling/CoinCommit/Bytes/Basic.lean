/-!
# Byte Strings

Everything that is hashed, stored or signed is a string of bytes. `Bytes` is
such a string of any length, ordered byte by byte with a proper start before
its continuations. `Bytes32` is one of exactly 32 bytes: a transaction id, a
hash, a key. The length is part of the type, so no function on hashes has a
case for a wrong length; `Bytes32.ofBytes?` is where a length is checked.

## Main definitions

* `Bytes`: A byte string.
* `Bytes32`: A byte string of length 32, ordered as byte strings are.
* `Bytes32.ofBytes?`: The 32-byte string that a byte string is, if any.

## Theorems

* `Bytes32.ext_bytes`: Equal bytes make equal strings.
* `Bytes32.le_total`, `le_trans`, `le_antisymm`: The order is linear.
* `Bytes32.lt_of_not_lt_of_ne`: Of two strings that differ, one comes first.
* `Bytes32.ofBytes?_eq_some_iff`: Checking a length changes no byte.
-/

namespace CoinCommit

/-- A byte string. -/
abbrev Bytes := List UInt8

/-- A byte string of length 32. -/
structure Bytes32 where
  bytes : Bytes
  length_eq : bytes.length = 32
deriving DecidableEq

namespace Bytes32

/-- Strings with the same bytes are the same. -/
theorem ext_bytes {a b : Bytes32} (h : a.bytes = b.bytes) : a = b := by
  cases a
  cases b
  cases h
  rfl

instance : LT Bytes32 := ⟨fun a b => a.bytes < b.bytes⟩

instance : LE Bytes32 := ⟨fun a b => a.bytes ≤ b.bytes⟩

instance (a b : Bytes32) : Decidable (a < b) :=
  inferInstanceAs (Decidable (a.bytes < b.bytes))

instance (a b : Bytes32) : Decidable (a ≤ b) :=
  inferInstanceAs (Decidable (a.bytes ≤ b.bytes))

theorem lt_trans {a b c : Bytes32} (hab : a < b) (hbc : b < c) : a < c :=
  List.lt_trans (show a.bytes < b.bytes from hab) hbc

theorem le_trans {a b c : Bytes32} (hab : a ≤ b) (hbc : b ≤ c) : a ≤ c :=
  List.le_trans (show a.bytes ≤ b.bytes from hab) hbc

theorem le_total (a b : Bytes32) : a ≤ b ∨ b ≤ a := List.le_total a.bytes b.bytes

theorem le_antisymm {a b : Bytes32} (hab : a ≤ b) (hba : b ≤ a) : a = b :=
  ext_bytes (List.le_antisymm (show a.bytes ≤ b.bytes from hab) hba)

/-- Of two strings that differ, one comes first. -/
theorem lt_of_not_lt_of_ne {a b : Bytes32} (h : ¬ a < b) (hne : ¬ a = b) : b < a := by
  rcases List.le_iff_lt_or_eq.mp (List.not_lt.mp h) with hlt | heq
  · exact hlt
  · exact absurd (ext_bytes heq).symm hne

instance : Trans (α := Bytes32) (· < ·) (· < ·) (· < ·) := ⟨lt_trans⟩

instance : Std.Irrefl (α := Bytes32) (· < ·) := ⟨fun a => List.lt_irrefl a.bytes⟩

instance : Std.Trichotomous (α := Bytes32) (· < ·) :=
  ⟨fun _ _ hab hba => Classical.byContradiction fun hne => hba (lt_of_not_lt_of_ne hab hne)⟩

/-- The string of 32 zero bytes. -/
def zero : Bytes32 := ⟨List.replicate 32 0, List.length_replicate⟩

instance : Inhabited Bytes32 := ⟨zero⟩

/-- The 32-byte string with these bytes; absent if there are not 32 of them. -/
def ofBytes? (bs : Bytes) : Option Bytes32 :=
  if h : bs.length = 32 then some ⟨bs, h⟩ else none

theorem ofBytes?_bytes (a : Bytes32) : ofBytes? a.bytes = some a := by
  simp only [ofBytes?, a.length_eq, dite_true]

theorem bytes_of_ofBytes? {bs : Bytes} {a : Bytes32} (h : ofBytes? bs = some a) :
    a.bytes = bs := by
  unfold ofBytes? at h
  split at h
  · cases h
    rfl
  · cases h

/-- The check of a length succeeds on the bytes of a 32-byte string and on no others. -/
theorem ofBytes?_eq_some_iff {bs : Bytes} {a : Bytes32} : ofBytes? bs = some a ↔ bs = a.bytes :=
  ⟨fun h => (bytes_of_ofBytes? h).symm, fun h => h ▸ ofBytes?_bytes a⟩

end Bytes32

end CoinCommit
