import ConcurrentServer.Base.Window
import Mathlib.Data.List.TakeWhile

/-!
# C strings in arrays

Library `Base`. An array is a memory of which the indexes from 0 up to its size may be used. The
functions of `string.h` and `stdio.h` are the stores that they make, so that what they write can be
compared with the size. A string is read from index 0 up to the first terminator.
-/

namespace ConcurrentServer.Base

/-- The terminator. -/
def nul : Char := Char.ofNat 0

/-- What a `char` pointer that is not null points to. -/
abbrev CText := { text : List Char // nul ∉ text }

/-- The conversion of an `int` to `size_t`; the literal is 2⁶⁴. -/
def sizeT (n : Int) : Nat := (n % 18446744073709551616).toNat

/-- A number that fits is not changed. -/
theorem sizeT_of_range {n : Int} (lo : 0 ≤ n) (hi : n < 18446744073709551616) :
    (sizeT n : Int) = n := by
  rw [sizeT, Int.emod_eq_of_lt lo hi, Int.toNat_of_nonneg lo]

/-- Characters that are stored from an index on. -/
structure Store where
  off : Int
  chars : List Char
  deriving DecidableEq, Repr

/-- Every index that is written is one of an array of `size` cells. -/
def Store.Inside (w : Store) (size : Int) : Prop :=
  ∀ i, w.off ≤ i → i < w.off + w.chars.length → 0 ≤ i ∧ i < size

/-- The memory after some stores, the first one first. -/
def stored (m : Int → Char) (ws : List Store) : Int → Char :=
  ws.foldl (fun m w ↦ storeAt m w.off w.chars) m

/-- The string at index 0 of an array. -/
def cString (m : Int → Char) (size : Int) : List Char :=
  (window m 0 size).takeWhile (· ≠ nul)

/-- `strcpy`. -/
def strcpy (text : List Char) : Store := ⟨0, text ++ [nul]⟩

/-- `strncpy`: exactly `n` characters are written, with a terminator only if there is room. -/
def strncpy (text : List Char) (n : Nat) : Store :=
  ⟨0, text.take n ++ List.replicate (n - text.length) nul⟩

/-- `snprintf` of a text, as which the result of the conversions is taken: at most `size`
characters are written, the last one the terminator. -/
def snprintf (off : Int) (size : Nat) (text : List Char) : Store :=
  match size with
  | 0 => ⟨off, []⟩
  | room + 1 => ⟨off, text.take room ++ [nul]⟩

variable {w : Store} {m : Int → Char} {size off n k : Int} {text : List Char}

/-! ### Which indexes are written -/

/-- A store of some characters is inside if its first and its last one are. -/
theorem Store.inside_iff (h : w.chars ≠ []) :
    w.Inside size ↔ 0 ≤ w.off ∧ w.off + w.chars.length ≤ size := by
  have hpos := List.length_pos_of_ne_nil h
  constructor
  · intro hinside
    have hfirst := hinside w.off (by omega) (by omega)
    have hlast := hinside (w.off + w.chars.length - 1) (by omega) (by omega)
    omega
  · intro hrange i hlo hhi
    omega

/-- A store of one character. -/
theorem inside_singleton {c : Char} : (⟨off, [c]⟩ : Store).Inside size ↔ 0 ≤ off ∧ off < size := by
  rw [Store.inside_iff (List.cons_ne_nil _ _)]
  show 0 ≤ off ∧ off + 1 ≤ size ↔ _
  rw [Int.add_one_le_iff]

/-- `snprintf` writes no more than the text and its terminator. -/
theorem length_snprintf_le (off : Int) (room : Nat) (text : List Char) :
    (snprintf off room text).chars.length ≤ text.length + 1 := by
  unfold snprintf
  split
  · exact Nat.zero_le _
  · rw [List.length_append, List.length_take, List.length_singleton]
    omega

/-- Where `snprintf` begins to write. -/
@[simp] theorem off_snprintf (off : Int) (room : Nat) (text : List Char) :
    (snprintf off room text).off = off := by
  unfold snprintf
  split <;> rfl

/-- `snprintf` stays inside an array that has room for the whole text. -/
theorem inside_snprintf {room : Nat} (lo : 0 ≤ off) (hi : off + text.length + 1 ≤ size) :
    (snprintf off room text).Inside size := by
  have hle := length_snprintf_le off room text
  intro i
  rw [off_snprintf]
  intro hlo hhi
  omega

/-- `snprintf` of a text that fits. -/
theorem snprintf_of_lt {room : Nat} (h : text.length < room) :
    snprintf off room text = ⟨off, text ++ [nul]⟩ := by
  cases room with
  | zero => exact absurd h (Nat.not_lt_zero _)
  | succ room => rw [snprintf, List.take_of_length_le (Nat.le_of_lt_succ h)]

/-! ### What is read -/

/-- Behind a text without a terminator the string goes on with what was in the array. -/
theorem cString_eq_append (hfree : nul ∉ text) (h : window m 0 text.length = text)
    (hsize : text.length ≤ size) :
    cString m size = text ++ (window m text.length (size - text.length)).takeWhile (· ≠ nul) := by
  have hsplit : window m 0 text.length ++ window m (0 + text.length) (size - text.length) = _ :=
    window_append (by omega) (by omega)
  rw [h, Int.zero_add, show (text.length : Int) + (size - text.length) = size by omega] at hsplit
  rw [cString, ← hsplit, List.takeWhile_append_of_pos]
  intro c hc
  simp only [decide_eq_true_eq]
  rintro rfl
  exact hfree hc

/-- A text is read back exactly if a terminator follows it. -/
theorem cString_eq_iff (hfree : nul ∉ text) (h : window m 0 text.length = text)
    (hsize : text.length < size) : cString m size = text ↔ m text.length = nul := by
  have hnext : window m text.length 1 ++
      window m (text.length + 1) (size - text.length - 1) = _ :=
    window_append (by omega) (by omega)
  rw [show (1 : Int) + (size - text.length - 1) = size - text.length by omega] at hnext
  have hone : window m text.length 1 = [m text.length] := by
    simp [window]
  rw [cString_eq_append hfree h (by omega), ← hnext, hone, List.append_right_eq_self,
    List.singleton_append]
  by_cases hnul : m text.length = nul
  · exact iff_of_true (List.takeWhile_cons_of_neg (by simpa using hnul)) hnul
  · rw [List.takeWhile_cons_of_pos (by simpa using hnul)]
    exact iff_of_false (List.cons_ne_nil _ _) hnul

/-- A text in front of a terminator is read back. -/
theorem cString_of_window (hfree : nul ∉ text)
    (h : window m 0 (text ++ [nul]).length = text ++ [nul])
    (hsize : (text ++ [nul]).length ≤ size) : cString m size = text := by
  have hlength : (text ++ [nul]).length = text.length + 1 := List.length_append
  rw [cString_eq_iff hfree (window_of_append h) (by omega)]
  have hnext := congrArg (fun l ↦ l[text.length]?) h
  simp only [getElem?_window, List.getElem?_concat_length] at hnext
  rw [if_pos (by omega), Int.zero_add, Option.some.injEq] at hnext
  exact hnext

end ConcurrentServer.Base
