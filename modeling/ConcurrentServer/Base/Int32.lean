import Mathlib.Data.Int.Basic
import Mathlib.Tactic.NormNum

/-!
# 32-bit signed integers

Library `Base`. The value of a 32-bit two's complement integer after wrap-around, as an
integer, and the facts that let a proof forget about wrap-around where no value wraps.
-/

namespace ConcurrentServer.Base

/-- The largest value of `int`. -/
def intMax : Int := 2 ^ 31 - 1

/-- The value of `x` after wrap-around to 32 bits; the literal is 2³². -/
def int32 (x : Int) : Int := Int.bmod x 4294967296

/-- A value that fits does not wrap. -/
theorem int32_of_range {x : Int} (lo : -2 ^ 31 ≤ x) (hi : x < 2 ^ 31) : int32 x = x := by
  unfold int32
  rw [Int.bmod_def]
  split <;> omega

/-- A value just above the largest one becomes negative. -/
theorem int32_neg_of_gt {x : Int} (lo : intMax < x) (hi : x < 2 ^ 32) : int32 x < 0 := by
  unfold intMax at lo
  unfold int32
  rw [Int.bmod_def]
  split <;> omega

/-- A value that is not negative is kept exactly if it is not beyond the largest one. -/
theorem int32_eq_self_iff {x : Int} (nonneg : 0 ≤ x) : int32 x = x ↔ x ≤ intMax := by
  unfold intMax int32
  rw [Int.bmod_def]
  split <;> omega

/-- An addition after a wrap-around wraps as the whole sum does. -/
theorem int32_add (x y : Int) : int32 (int32 x + y) = int32 (x + y) := Int.bmod_add_bmod

/-- The value of a 32-bit counter after `k` increments from 0. -/
def counter32 (k : Nat) : Int :=
  if k % 4294967296 < 2147483648 then (k % 4294967296 : Nat)
  else (k % 4294967296 : Nat) - 4294967296

/-- The counter repeats after 2³² increments. -/
theorem counter32_eq_iff {i j : Nat} :
    counter32 i = counter32 j ↔ i % 4294967296 = j % 4294967296 := by
  unfold counter32
  split <;> split <;> omega

/-- The first 2³² counter values are pairwise different. -/
theorem counter32_inj {i j : Nat} (hi : i < 2 ^ 32) (hj : j < 2 ^ 32)
    (h : counter32 i = counter32 j) : i = j := by
  unfold counter32 at h
  split at h <;> split at h <;> omega

/-- The counter reads −1 only right before it repeats. -/
theorem counter32_ne_neg_one {i : Nat} (hi : i < 2 ^ 32 - 1) : counter32 i ≠ -1 := by
  unfold counter32
  split <;> omega

end ConcurrentServer.Base
