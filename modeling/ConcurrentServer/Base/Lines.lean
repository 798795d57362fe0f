import ConcurrentServer.Base.Decimal
import Mathlib.Data.List.Basic

/-!
# Texts one behind another

Library `Base`. A field that ends at a separator is read back up to the first one, and what stands
behind it is left. Texts that can be read back in front of others like them can be read back from
their concatenation.
-/

namespace ConcurrentServer.Base

universe u v

variable {α : Type u} {β : Type v}

section Fields

variable {sep : α} {field field' rest rest' : List α} {m n : Nat}

/-- Fields without the separator are read up to it. -/
theorem field_inj (free : sep ∉ field) (free' : sep ∉ field')
    (same : field ++ sep :: rest = field' ++ sep :: rest') : field = field' ∧ rest = rest' := by
  induction field generalizing field' with
  | nil =>
    cases field' with
    | nil => exact ⟨rfl, (List.cons.inj same).2⟩
    | cons x field' => exact absurd ((List.cons.inj same).1 ▸ List.mem_cons_self) free'
  | cons x field ih =>
    cases field' with
    | nil => exact absurd ((List.cons.inj same).1 ▸ List.mem_cons_self) free
    | cons y field' =>
      obtain ⟨hfirst, hbehind⟩ := List.cons.inj same
      obtain ⟨hfield, hrest⟩ := ih (fun hin ↦ free (List.mem_cons_of_mem x hin))
        (fun hin ↦ free' (List.mem_cons_of_mem y hin)) hbehind
      exact ⟨by rw [hfirst, hfield], hrest⟩

/-- The separators in front of something else are counted. -/
theorem replicate_inj (behind : rest.head? ≠ some sep) (behind' : rest'.head? ≠ some sep)
    (same : List.replicate m sep ++ rest = List.replicate n sep ++ rest') :
    m = n ∧ rest = rest' := by
  induction m generalizing n with
  | zero =>
    cases n with
    | zero => exact ⟨rfl, same⟩
    | succ n =>
      rw [List.replicate_zero, List.nil_append] at same
      exact absurd (by rw [same]; rfl) behind
  | succ m ih =>
    cases n with
    | zero =>
      rw [List.replicate_zero, List.nil_append] at same
      exact absurd (by rw [← same]; rfl) behind'
    | succ n =>
      obtain ⟨hcount, hrest⟩ := ih (List.cons.inj same).2
      exact ⟨congrArg (· + 1) hcount, hrest⟩

end Fields

section Texts

variable {text : α → List β} {P : α → Prop} {l l' : List α}

/-- Texts that are not empty, each of which can be read back when others follow. -/
theorem flatten_inj (filled : ∀ a, P a → text a ≠ [])
    (first : ∀ (a a' : α) (l l' : List α), P a → P a' → (∀ b ∈ l, P b) → (∀ b ∈ l', P b) →
      text a ++ (l.map text).flatten = text a' ++ (l'.map text).flatten → a = a')
    (hl : ∀ b ∈ l, P b) (hl' : ∀ b ∈ l', P b)
    (same : (l.map text).flatten = (l'.map text).flatten) : l = l' := by
  induction l generalizing l' with
  | nil =>
    cases l' with
    | nil => rfl
    | cons a' l' =>
      have hempty := (List.append_eq_nil_iff.mp same.symm).1
      exact absurd hempty (filled a' (hl' a' List.mem_cons_self))
  | cons a l ih =>
    cases l' with
    | nil =>
      have hempty := (List.append_eq_nil_iff.mp same).1
      exact absurd hempty (filled a (hl a List.mem_cons_self))
    | cons a' l' =>
      obtain ⟨ha, hrest⟩ := List.forall_mem_cons.mp hl
      obtain ⟨ha', hrest'⟩ := List.forall_mem_cons.mp hl'
      cases first a a' l l' ha ha' hrest hrest' same
      rw [ih hrest hrest' (List.append_cancel_left same)]

end Texts

end ConcurrentServer.Base
