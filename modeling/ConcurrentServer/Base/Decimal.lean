import Mathlib.Algebra.Group.Nat.Defs
import Mathlib.Data.List.Basic

/-!
# Decimal numerals of a fixed width

Library `Base`. `decimal` and `zeroPad` write an integer as the `printf` conversions `%d` and
`%0wd` do. A numeral determines its number, and a number that is not too large for the width has
a numeral of exactly that width.
-/

namespace ConcurrentServer.Base

/-- `%0wd`: the sign, and zeros in front of the digits up to the width. -/
def zeroPad (width : Nat) (n : Int) : List Char :=
  if n < 0 then '-' :: (Nat.toDigits 10 n.natAbs).leftpad (width - 1) '0'
  else (Nat.toDigits 10 n.natAbs).leftpad width '0'

/-- `%d`. -/
def decimal (n : Int) : List Char := zeroPad 0 n

variable {width : Nat} {m n : Int}

/-- The numeral of a number that is not negative. -/
theorem zeroPad_of_nonneg (h : 0 ≤ n) :
    zeroPad width n = (Nat.toDigits 10 n.natAbs).leftpad width '0' := by
  rw [zeroPad, if_neg (by omega)]

/-- The digits that were padded are read back. -/
theorem ofDigitChars_leftpad (k : Nat) :
    Nat.ofDigitChars 10 ((Nat.toDigits 10 k).leftpad width '0') 0 = k := by
  rw [List.leftpad, Nat.ofDigitChars_append, Nat.ofDigitChars_replicate_zero, Nat.mul_zero,
    Nat.ofDigitChars_ten_toDigits]

/-- A numeral determines its number. -/
theorem zeroPad_inj (hm : 0 ≤ m) (hn : 0 ≤ n) (h : zeroPad width m = zeroPad width n) :
    m = n := by
  rw [zeroPad_of_nonneg hm, zeroPad_of_nonneg hn] at h
  have hread := congrArg (fun digits ↦ Nat.ofDigitChars 10 digits 0) h
  simp only [ofDigitChars_leftpad] at hread
  omega

/-- A number with few digits has a numeral of the width. -/
theorem length_zeroPad (hwidth : 0 < width) (hn : 0 ≤ n) (hlt : n.toNat < 10 ^ width) :
    (zeroPad width n).length = width := by
  have hdigits : (Nat.toDigits 10 n.natAbs).length ≤ width := by
    rw [Nat.length_toDigits_le_iff (by decide) hwidth]
    rwa [show n.natAbs = n.toNat by omega]
  rw [zeroPad_of_nonneg hn, List.length_leftpad]
  omega

/-- The characters of a number that is not negative are digits. -/
theorem isDigit_of_mem_zeroPad {c : Char} (hn : 0 ≤ n) (hc : c ∈ zeroPad width n) :
    c.isDigit := by
  rw [zeroPad_of_nonneg hn, List.leftpad, List.mem_append, List.mem_replicate] at hc
  rcases hc with ⟨-, rfl⟩ | hc
  · decide
  · exact Nat.isDigit_of_mem_toDigits (by decide) (by decide) hc

/-- In front of anything else, a numeral of the width is read back. -/
theorem numeral_inj {rest rest' : List Char} (hwidth : 0 < width)
    (hm : 0 ≤ m ∧ m.toNat < 10 ^ width) (hn : 0 ≤ n ∧ n.toNat < 10 ^ width)
    (same : zeroPad width m ++ rest = zeroPad width n ++ rest') : m = n ∧ rest = rest' := by
  have hlength : (zeroPad width m).length = (zeroPad width n).length := by
    rw [length_zeroPad hwidth hm.1 hm.2, length_zeroPad hwidth hn.1 hn.2]
  obtain ⟨hnumerals, hrest⟩ := List.append_inj same hlength
  exact ⟨zeroPad_inj hm.1 hn.1 hnumerals, hrest⟩

end ConcurrentServer.Base
