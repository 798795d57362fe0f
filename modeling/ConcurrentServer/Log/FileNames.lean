import ConcurrentServer.Base.Decimal
import ConcurrentServer.Log.LogFiles
import Mathlib.Order.Defs.LinearOrder

/-!
# Names of the log's files

`src/log/log.cpp:134–135, 169–179`. A file is named by the date of the call that opened it, and a
part by a number too. Directory and base name have fewer than 128 characters together, so
`snprintf` cuts nothing off. As long as years have four digits, different dates and numbers give
different paths.
-/

namespace ConcurrentServer.Log
open ConcurrentServer.Base

namespace MyTime

variable {a b c : MyTime}

/-- Dates as they follow each other in the calendar. -/
instance : LE MyTime where
  le a b := a.year < b.year ∨
    a.year = b.year ∧ (a.month < b.month ∨ a.month = b.month ∧ a.day ≤ b.day)

/-- The order, by the three numbers. -/
theorem le_def : a ≤ b ↔ a.year < b.year ∨
    a.year = b.year ∧ (a.month < b.month ∨ a.month = b.month ∧ a.day ≤ b.day) := Iff.rfl

instance : DecidableLE MyTime := fun a b ↦ inferInstanceAs (Decidable (a.year < b.year ∨
  a.year = b.year ∧ (a.month < b.month ∨ a.month = b.month ∧ a.day ≤ b.day)))

/-- The calendar order is linear. -/
instance : LinearOrder MyTime where
  le_refl a := by
    rw [le_def]
    omega
  le_trans a b c := by
    simp only [le_def]
    omega
  le_antisymm a b := by
    intro hab hba
    rw [le_def] at hab hba
    have hyear : a.year = b.year := by omega
    have hmonth : a.month = b.month := by omega
    have hday : a.day = b.day := by omega
    cases a
    cases b
    simp_all
  le_total a b := by
    simp only [le_def]
    omega
  toDecidableLE := inferInstance

/-- A calendar date whose year has at most four digits. -/
def Valid (tm : MyTime) : Prop :=
  (0 ≤ tm.year ∧ tm.year ≤ 9999) ∧ (1 ≤ tm.month ∧ tm.month ≤ 12) ∧ (1 ≤ tm.day ∧ tm.day ≤ 31)

instance (tm : MyTime) : Decidable tm.Valid := inferInstanceAs (Decidable (_ ∧ _))

/-- `"%04d_%02d_%02d_"`. -/
def datePrefix (tm : MyTime) : List Char :=
  zeroPad 4 tm.year ++ '_' :: (zeroPad 2 tm.month ++ '_' :: (zeroPad 2 tm.day ++ ['_']))

/-- The prefix of a valid date has eleven characters. -/
theorem Valid.length_datePrefix (h : a.Valid) : a.datePrefix.length = 11 := by
  obtain ⟨hyear, hmonth, hday⟩ := h
  have hy : (zeroPad 4 a.year).length = 4 := length_zeroPad (by decide) hyear.1 (by omega)
  have hm : (zeroPad 2 a.month).length = 2 := length_zeroPad (by decide) (by omega) (by omega)
  have hd : (zeroPad 2 a.day).length = 2 := length_zeroPad (by decide) (by omega) (by omega)
  simp [datePrefix, hy, hm, hd]

/-- The prefix of a valid date determines the date. -/
theorem Valid.datePrefix_inj (ha : a.Valid) (hb : b.Valid) (h : a.datePrefix = b.datePrefix) :
    a = b := by
  obtain ⟨hyear, hmonth, hday⟩ := ha
  obtain ⟨hyear', hmonth', hday'⟩ := hb
  have hy : (zeroPad 4 a.year).length = (zeroPad 4 b.year).length := by
    rw [length_zeroPad (by decide) hyear.1 (by omega),
      length_zeroPad (by decide) hyear'.1 (by omega)]
  have hm : (zeroPad 2 a.month).length = (zeroPad 2 b.month).length := by
    rw [length_zeroPad (by decide) (by omega) (by omega),
      length_zeroPad (by decide) (by omega) (by omega)]
  obtain ⟨hyears, hrest⟩ := List.append_inj h hy
  obtain ⟨hmonths, hrest⟩ := List.append_inj (List.cons.inj hrest).2 hm
  have hdays := List.append_cancel_right (List.cons.inj hrest).2
  have h₁ := zeroPad_inj hyear.1 hyear'.1 hyears
  have h₂ := zeroPad_inj (by omega) (by omega) hmonths
  have h₃ := zeroPad_inj (by omega) (by omega) hdays
  cases a
  cases b
  simp_all

end MyTime

namespace FileName

/-- The date in the name. -/
def date : FileName → Option MyTime
  | .stdout => none
  | .daily tm | .part tm _ => some tm

/-- What stands behind `l_file_name`. -/
def numbered : FileName → List Char
  | .stdout | .daily _ => []
  | .part _ number => '.' :: decimal number

/-- The path that `fopen` gets, for `l_dir_name` and `l_file_name`. -/
def path (dirName fileName : List Char) (name : FileName) : Option (List Char) :=
  name.date.map fun tm ↦ dirName ++ (tm.datePrefix ++ (fileName ++ name.numbered))

/-- A name with a valid date, and a number that is not negative. -/
def Valid : FileName → Prop
  | .stdout => False
  | .daily tm => tm.Valid
  | .part tm number => tm.Valid ∧ 0 ≤ number

variable {dirName fileName : List Char} {m n : FileName}

/-- The date of a valid name. -/
theorem Valid.date (h : n.Valid) : ∃ tm, n.date = some tm ∧ tm.Valid := by
  cases n with
  | stdout => cases h
  | daily tm => exact ⟨tm, rfl, h⟩
  | part tm number => exact ⟨tm, rfl, h.1⟩

/-- Date and number determine a valid name. -/
theorem Valid.eq_of_numbered (hm : m.Valid) (hn : n.Valid) (hdate : m.date = n.date)
    (h : m.numbered = n.numbered) : m = n := by
  cases m with
  | stdout => cases hm
  | daily tm =>
    cases n with
    | stdout => cases hn
    | daily tm' =>
      cases hdate
      rfl
    | part tm' number => cases h
  | part tm number =>
    cases n with
    | stdout => cases hn
    | daily tm' => cases h
    | part tm' number' =>
      cases hdate
      rw [zeroPad_inj hm.2 hn.2 (List.cons.inj h).2]

/-- Valid names have different paths. -/
theorem Valid.path_inj (hm : m.Valid) (hn : n.Valid)
    (h : m.path dirName fileName = n.path dirName fileName) : m = n := by
  obtain ⟨tm, hdate, htm⟩ := hm.date
  obtain ⟨tm', hdate', htm'⟩ := hn.date
  simp only [path, hdate, hdate', Option.map_some, Option.some.injEq,
    List.append_cancel_left_eq] at h
  have hlength : tm.datePrefix.length = tm'.datePrefix.length := by
    rw [htm.length_datePrefix, htm'.length_datePrefix]
  obtain ⟨hdatePrefix, hrest⟩ := List.append_inj h hlength
  have hdates : m.date = n.date := by
    rw [hdate, hdate', htm.datePrefix_inj htm' hdatePrefix]
  exact hm.eq_of_numbered hn hdates (List.append_cancel_left hrest)

end FileName

end ConcurrentServer.Log
