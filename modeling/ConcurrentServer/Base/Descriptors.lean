import Mathlib.Data.List.Basic
import Mathlib.Logic.Function.Basic

/-!
# Descriptors of a process

Library `Base`. A table says who has opened each descriptor below the limit of the process. A
new descriptor is the lowest one that nobody has open, and there is none when the table is full.
-/

namespace ConcurrentServer.Base

universe u

/-- Who has opened each descriptor. -/
structure Descriptors (Owner : Type u) where
  limit : Nat
  owner : Nat → Option Owner
  owner_of_le : ∀ fd, limit ≤ fd → owner fd = none

namespace Descriptors

variable {Owner : Type u} {d : Descriptors Owner} {o : Owner} {fd : Nat}

/-- Some descriptor is free. -/
def Free (d : Descriptors Owner) : Prop := ∃ fd < d.limit, d.owner fd = none

instance (d : Descriptors Owner) : Decidable d.Free :=
  decidable_of_iff (∃ fd < d.limit, (d.owner fd).isNone = true) (by simp [Free])

/-- Who has descriptor `fd` changes. -/
def set (d : Descriptors Owner) (fd : Nat) (h : fd < d.limit) (o : Option Owner) :
    Descriptors Owner where
  limit := d.limit
  owner := Function.update d.owner fd o
  owner_of_le := by
    intro n hn
    rw [Function.update_of_ne (by omega)]
    exact d.owner_of_le n hn

/-- The lowest free descriptor. -/
def lowestFree (d : Descriptors Owner) : Option Nat :=
  (List.range d.limit).find? fun fd ↦ (d.owner fd).isNone

/-- The lowest free descriptor is free. -/
theorem free_of_lowestFree (h : d.lowestFree = some fd) : fd < d.limit ∧ d.owner fd = none := by
  have hmem := List.mem_of_find?_eq_some h
  have hnone := List.find?_some h
  exact ⟨List.mem_range.mp hmem, Option.isNone_iff_eq_none.mp hnone⟩

/-- There is a lowest free descriptor when there is a free one. -/
theorem lowestFree_eq_none_iff : d.lowestFree = none ↔ ¬ d.Free := by
  unfold lowestFree Free
  rw [List.find?_eq_none]
  simp

/-- A new descriptor for `o`. -/
def take (d : Descriptors Owner) (o : Owner) : Option (Nat × Descriptors Owner) :=
  match h : d.lowestFree with
  | none => none
  | some fd => some (fd, d.set fd (free_of_lowestFree h).1 (some o))

/-- A descriptor is closed; a number that is no open descriptor makes the call fail. -/
def close (d : Descriptors Owner) (fd : Int) : Descriptors Owner :=
  if h : 0 ≤ fd ∧ fd.toNat < d.limit then d.set fd.toNat h.2 none else d

/-- What a new descriptor is. -/
theorem take_eq_some {d' : Descriptors Owner} (h : d.take o = some (fd, d')) :
    d.owner fd = none ∧ d'.owner = Function.update d.owner fd (some o) := by
  unfold take at h
  split at h
  · cases h
  · next hfree =>
    cases h
    exact ⟨(free_of_lowestFree hfree).2, rfl⟩

/-- There is no new descriptor when none is free. -/
theorem take_eq_none_iff : d.take o = none ↔ ¬ d.Free := by
  rw [← lowestFree_eq_none_iff]
  unfold take
  split
  · next h => simp [h]
  · next h => simp [h]

/-- Whoever has a descriptor keeps it when another is opened. -/
theorem owner_of_take {d' : Descriptors Owner} {n : Nat} {p : Owner}
    (h : d.take o = some (fd, d')) (hn : d.owner n = some p) : d'.owner n = some p := by
  obtain ⟨hfree, hd'⟩ := take_eq_some h
  have hne : n ≠ fd := by
    rintro rfl
    rw [hfree] at hn
    cases hn
  rw [hd', Function.update_of_ne hne]
  exact hn

/-- Whoever has a descriptor keeps it when another is closed. -/
theorem owner_close_of_ne {n : Nat} {e : Int} (h : (n : Int) ≠ e) :
    (d.close e).owner n = d.owner n := by
  unfold close
  split
  · show Function.update d.owner _ none n = d.owner n
    rw [Function.update_of_ne]
    omega
  · rfl

/-- A descriptor that somebody had is free once it is closed. -/
theorem free_close (h : d.owner fd = some o) : (d.close fd).Free := by
  have hlt : fd < d.limit := by
    by_contra hle
    rw [d.owner_of_le fd (by omega)] at h
    cases h
  have hclose : 0 ≤ (fd : Int) ∧ (fd : Int).toNat < d.limit := by
    omega
  refine ⟨fd, ?_, ?_⟩
  · rw [close, dif_pos hclose]
    exact hlt
  · rw [close, dif_pos hclose]
    exact Function.update_self ..

/-- Closing leaves free what was free. -/
theorem Free.close (h : d.Free) (fd : Int) : (d.close fd).Free := by
  obtain ⟨n, hn, hfree⟩ := h
  unfold Descriptors.close
  split
  · refine ⟨n, hn, ?_⟩
    show Function.update d.owner _ none n = none
    by_cases heq : n = fd.toNat
    · rw [heq, Function.update_self]
    · rw [Function.update_of_ne heq]
      exact hfree
  · exact ⟨n, hn, hfree⟩

end Descriptors

end ConcurrentServer.Base
