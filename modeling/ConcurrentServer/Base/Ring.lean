import ConcurrentServer.Base.Window
import Mathlib.Data.Int.ModEq
import Mathlib.Logic.Function.Basic

/-!
# Rings of cells

Library `Base`. A ring of `capacity` cells is read at every offset modulo its capacity. What
it holds from an offset on is a window of that unrolled memory; a store right behind the
window appends to it, as long as the ring is not full.
-/

namespace ConcurrentServer.Base

universe u

variable {B : Type u} {cells : Int → B} {capacity off off' n j : Int}

/-- The cells of a ring along all offsets. -/
def unrolled (cells : Int → B) (capacity : Int) : Int → B := fun i ↦ cells (i % capacity)

/-- A window of a ring depends on its offset modulo the capacity only. -/
theorem window_unrolled_congr (h : off ≡ off' [ZMOD capacity]) :
    window (unrolled cells capacity) off n = window (unrolled cells capacity) off' n := by
  apply List.ext_getElem?
  intro i
  rw [getElem?_window, getElem?_window]
  show (if i < n.toNat then some (cells ((off + i) % capacity)) else none) =
    if i < n.toNat then some (cells ((off' + i) % capacity)) else none
  rw [show (off + i) % capacity = (off' + i) % capacity from h.add_right i]

/-- Two offsets less than a whole round apart are different cells. -/
theorem emod_ne_of_lt {i : Int} (h : j ≡ off + n [ZMOD capacity]) (lo : 0 ≤ i) (hi : i < n)
    (hn : n < capacity) : (off + i) % capacity ≠ j % capacity := by
  intro heq
  have hmod : off + i ≡ off + n [ZMOD capacity] := Int.ModEq.trans heq h
  have hdvd : capacity ∣ n - i := (Int.ModEq.add_left_cancel' off hmod).dvd
  have hle : capacity ≤ n - i := Int.le_of_dvd (by omega) hdvd
  omega

/-- A store behind the window of a ring that is not full leaves the window. -/
theorem window_unrolled_update (x : B) (h : j ≡ off + n [ZMOD capacity]) (hn : n < capacity) :
    window (unrolled (Function.update cells (j % capacity) x) capacity) off n =
      window (unrolled cells capacity) off n := by
  apply List.ext_getElem?
  intro i
  rw [getElem?_window, getElem?_window]
  by_cases hi : i < n.toNat
  · have hne : (off + i) % capacity ≠ j % capacity :=
      emod_ne_of_lt h (by omega) (by omega) hn
    rw [if_pos hi, if_pos hi, unrolled, unrolled, Function.update_of_ne hne]
  · rw [if_neg hi, if_neg hi]

/-- A window of one cell. -/
theorem window_unrolled_one :
    window (unrolled cells capacity) off 1 = [cells (off % capacity)] := by
  simp [window, unrolled]

/-- A store right behind the window of a ring that is not full appends to it. -/
theorem window_unrolled_push (x : B) (h : j ≡ off + n [ZMOD capacity]) (lo : 0 ≤ n)
    (hn : n < capacity) :
    window (unrolled (Function.update cells (j % capacity) x) capacity) off (n + 1) =
      window (unrolled cells capacity) off n ++ [x] := by
  rw [← window_append lo (by omega), window_unrolled_update x h hn, window_unrolled_one,
    show (off + n) % capacity = j % capacity from h.symm, Function.update_self]

/-- The first cell of a window and the rest of it. -/
theorem window_unrolled_pop (hn : 0 < n) :
    window (unrolled cells capacity) off n =
      cells (off % capacity) :: window (unrolled cells capacity) (off + 1) (n - 1) := by
  have happ : window (unrolled cells capacity) off 1 ++
      window (unrolled cells capacity) (off + 1) (n - 1) =
        window (unrolled cells capacity) off (1 + (n - 1)) :=
    window_append (by omega) (by omega)
  rw [window_unrolled_one, show 1 + (n - 1) = n by omega] at happ
  exact happ.symm

/-- The last cell of a window. -/
theorem getLast?_window_unrolled (hn : 0 < n) :
    (window (unrolled cells capacity) off n).getLast? =
      some (cells ((off + n - 1) % capacity)) := by
  have happ : window (unrolled cells capacity) off (n - 1) ++
      window (unrolled cells capacity) (off + (n - 1)) 1 =
        window (unrolled cells capacity) off (n - 1 + 1) :=
    window_append (by omega) (by omega)
  rw [window_unrolled_one, show n - 1 + 1 = n by omega] at happ
  rw [← happ, List.getLast?_append, List.getLast?_singleton, Option.some_or,
    show off + (n - 1) = off + n - 1 by omega]

/-- The remainder of the next number, unless it is zero. -/
theorem emod_succ {a b : Int} (hb : 1 ≤ b) (h : (a + 1) % b ≠ 0) : (a + 1) % b = a % b + 1 := by
  have hlt := Int.emod_lt_of_pos a (show 0 < b by omega)
  have hnonneg := Int.emod_nonneg a (show b ≠ 0 by omega)
  have hmod : (a + 1) % b = (a % b + 1) % b := (Int.emod_add_emod a b 1).symm
  by_cases hnext : a % b + 1 = b
  · rw [hmod, hnext, Int.emod_self] at h
    exact absurd rfl h
  · rw [hmod, Int.emod_eq_of_lt (by omega) (by omega)]

end ConcurrentServer.Base
