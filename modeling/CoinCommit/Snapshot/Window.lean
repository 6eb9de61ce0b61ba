import CoinCommit.Fault

/-!
# Height Windows

A snapshot covers the transactions of a range of heights, both ends included.
The lower end never lies above the upper one; bounds that would be refused are
reported with both heights.

## Main definitions

* `Window`: A range of heights.
* `Window.between`: The range with two given ends, or the fault.
* `Window.all`, `Window.upTo`: Every height, and those up to a tip.
* `Window.contains`: Whether a height lies in the range.

## Theorems

* `Window.contains_iff`: Both ends are included.
* `Window.contains_all`: Every height lies in the range of all.
-/

namespace CoinCommit

/-- A range of heights, both ends included. -/
structure Window where
  min : UInt64
  max : UInt64
  min_le_max : min ≤ max

namespace Window

/-- The fault of bounds in the wrong order. -/
def reversed (min max : UInt64) : Fault :=
  ⟨.window, "height_min " ++ Nat.repr min.toNat ++ " > height_max " ++ Nat.repr max.toNat⟩

/-- The range with these ends. -/
def between (min max : UInt64) : Except Fault Window :=
  if h : min ≤ max then .ok ⟨min, max, h⟩ else .error (reversed min max)

/-- The heights up to a tip. -/
def upTo (tip : UInt64) : Window := ⟨0, tip, UInt64.zero_le⟩

/-- The greatest height. -/
def maxHeight : UInt64 := 0xffffffffffffffff

/-- Every height. -/
def all : Window := upTo maxHeight

/-- Whether a height lies in the range. -/
def contains (w : Window) (height : UInt64) : Bool := w.min ≤ height && height ≤ w.max

theorem contains_iff {w : Window} {height : UInt64} :
    w.contains height = true ↔ w.min ≤ height ∧ height ≤ w.max := by
  simp only [contains, Bool.and_eq_true, decide_eq_true_eq]

theorem contains_all (height : UInt64) : Window.all.contains height = true := by
  rw [contains_iff]
  refine ⟨UInt64.zero_le, ?_⟩
  rw [UInt64.le_iff_toNat_le]
  exact Nat.le_of_lt_succ height.toNat_lt

end Window

end CoinCommit
