import Mathlib.Data.Int.Basic
import Mathlib.Data.List.Basic

/-!
# Windows of a memory

Library `Base`. A memory gives a value to every offset, negative ones included; a window is a
stretch of it. Storing a list next to a window appends to it, and cutting a window's front off
drops values.
-/

namespace ConcurrentServer.Base

universe u

variable {B : Type u} {m : Int → B} {off n k : Int}

/-- The `n` values from offset `off` on, in order; none if `n` is negative. -/
def window (m : Int → B) (off n : Int) : List B :=
  (List.range n.toNat).map fun (i : Nat) ↦ m (off + i)

/-- The memory after the values were stored from offset `off` on. -/
def storeAt (m : Int → B) (off : Int) (values : List B) : Int → B := fun i ↦
  if off ≤ i then (values[(i - off).toNat]?).getD (m i) else m i

@[simp] theorem length_window : (window m off n).length = n.toNat := by
  simp [window]

/-- One value of a window. -/
theorem getElem?_window (i : Nat) :
    (window m off n)[i]? = if i < n.toNat then some (m (off + i)) else none := by
  by_cases hi : i < n.toNat
  · simp [window, hi]
  · rw [if_neg hi, List.getElem?_eq_none (by rw [length_window]; omega)]

/-- Two adjacent windows. -/
theorem window_append (hn : 0 ≤ n) (hk : 0 ≤ k) :
    window m off n ++ window m (off + n) k = window m off (n + k) := by
  apply List.ext_getElem?
  intro i
  rw [List.getElem?_append, length_window, getElem?_window, getElem?_window, getElem?_window]
  by_cases hi : i < n.toNat
  · rw [if_pos hi, if_pos hi, if_pos (by omega)]
  · have hoff : off + n + (i - n.toNat : Nat) = off + i := by omega
    have hlt : i - n.toNat < k.toNat ↔ i < (n + k).toNat := by omega
    simp only [if_neg hi, hoff, hlt]

/-- A window without its front. -/
theorem window_drop (hk : 0 ≤ k) :
    (window m off n).drop k.toNat = window m (off + k) (n - k) := by
  apply List.ext_getElem?
  intro i
  rw [List.getElem?_drop, getElem?_window, getElem?_window]
  have hoff : off + (k.toNat + i : Nat) = off + k + i := by omega
  have hlt : k.toNat + i < n.toNat ↔ i < (n - k).toNat := by omega
  simp only [hoff, hlt]

/-- The first part of a window. -/
theorem window_take (hk : k ≤ n) : (window m off n).take k.toNat = window m off k := by
  apply List.ext_getElem?
  intro i
  rw [List.getElem?_take, getElem?_window, getElem?_window]
  by_cases hi : i < k.toNat
  · rw [if_pos hi, if_pos hi, if_pos (by omega)]
  · rw [if_neg hi, if_neg hi]

/-- The first part of a window, by its values. -/
theorem window_of_append {a b : List B} (h : window m off (a ++ b).length = a ++ b) :
    window m off a.length = a := by
  have hle : (a.length : Int) ≤ (a ++ b).length := by
    rw [List.length_append]
    omega
  rw [← window_take hle, h, Int.toNat_natCast, List.take_left]

/-- A store leaves what lies behind it. -/
theorem storeAt_of_le {values : List B} {i : Int} (h : off + values.length ≤ i) :
    storeAt m off values i = m i := by
  rw [storeAt, if_pos (by omega), List.getElem?_eq_none (by omega), Option.getD_none]

/-- A store leaves what lies before it. -/
theorem window_storeAt_before {values : List B} {off' : Int} (h : off' + n ≤ off) :
    window (storeAt m off values) off' n = window m off' n := by
  apply List.ext_getElem?
  intro i
  rw [getElem?_window, getElem?_window]
  by_cases hi : i < n.toNat
  · rw [if_pos hi, if_pos hi, storeAt, if_neg (by omega)]
  · rw [if_neg hi, if_neg hi]

/-- What was stored is read back. -/
theorem window_storeAt_self {values : List B} :
    window (storeAt m off values) off values.length = values := by
  apply List.ext_getElem?
  intro i
  rw [getElem?_window, Int.toNat_natCast]
  by_cases hi : i < values.length
  · have hoff : (off + i - off).toNat = i := by omega
    rw [if_pos hi, storeAt, if_pos (by omega), hoff, List.getElem?_eq_getElem hi,
      Option.getD_some]
  · rw [if_neg hi, List.getElem?_eq_none (by omega)]

/-- A window that was stored elsewhere is read back there. -/
theorem window_storeAt_window {m' : Int → B} {off' : Int} (hn : 0 ≤ n) :
    window (storeAt m off (window m' off' n)) off n = window m' off' n := by
  have hself : window (storeAt m off (window m' off' n)) off (window m' off' n).length = _ :=
    window_storeAt_self
  rwa [length_window, Int.toNat_of_nonneg hn] at hself

/-- A store right behind a window appends to it. -/
theorem window_storeAt_append {values : List B} (hn : 0 ≤ n) :
    window (storeAt m (off + n) values) off (n + values.length) = window m off n ++ values := by
  rw [← window_append hn (by omega), window_storeAt_before (Int.le_refl _), window_storeAt_self]

/-- A store right behind some values appends to them. -/
theorem window_storeAt_behind {a b : List B} (h : window m 0 a.length = a)
    (hoff : off = a.length) : window (storeAt m off b) 0 (a ++ b).length = a ++ b := by
  have happend : window (storeAt m (0 + (a.length : Int)) b) 0 (a.length + b.length) =
      window m 0 a.length ++ b := window_storeAt_append (by omega)
  rw [h, Int.zero_add] at happend
  rw [hoff, List.length_append, Int.natCast_add, happend]

end ConcurrentServer.Base
