import Mathlib.Data.List.Nodup
import Mathlib.Logic.Function.Basic

/-!
# Singly linked lists

Library `Base`. A linked list is a head and a `next` pointer for each node. `Linked` says which
nodes it has; the operations at its head, and changes elsewhere, act on that list of nodes.
-/

namespace ConcurrentServer.Base

universe u v

variable {α : Type u} {next : α → Option α} {p : Option α} {l : List α}

/-- The nodes met from `p` along `next` are `l`, and then comes the null pointer. -/
def Linked (next : α → Option α) : Option α → List α → Prop
  | p, [] => p = none
  | p, a :: l => p = some a ∧ Linked next (next a) l

/-- The pointer met after `i` hops from `p`. -/
def nthNode (next : α → Option α) : Option α → Nat → Option α
  | p, 0 => p
  | p, i + 1 => nthNode next (p.bind next) i

/-- Behind the null pointer there is nothing. -/
theorem nthNode_none (i : Nat) : nthNode next none i = none := by
  induction i with
  | zero => rfl
  | succ i ih => exact ih

/-- Walking a linked list meets its nodes in order. -/
theorem Linked.nthNode (h : Linked next p l) (i : Nat) : nthNode next p i = l[i]? := by
  induction l generalizing p i with
  | nil =>
    rw [show p = none from h]
    exact nthNode_none i
  | cons a l ih =>
    obtain ⟨rfl, hrest⟩ := h
    cases i with
    | zero => rfl
    | succ i => exact ih hrest i

/-- The loop that goes along a list and folds `f` over its nodes, in at most `fuel` passes. -/
def foldNodes (next : α → Option α) {β : Type v} (f : β → α → β) : Nat → β → Option α → Option β
  | _, b, none => some b
  | 0, _, some _ => none
  | fuel + 1, b, some a => foldNodes next f fuel (f b a) (next a)

/-- The loop ends after the last node, with the fold over the list. -/
theorem Linked.foldNodes (h : Linked next p l) {β : Type v} (f : β → α → β) (b : β) {fuel : Nat}
    (enough : l.length ≤ fuel) : foldNodes next f fuel b p = some (l.foldl f b) := by
  induction l generalizing p b fuel with
  | nil =>
    rw [show p = none from h]
    cases fuel <;> rfl
  | cons a l ih =>
    obtain ⟨rfl, hrest⟩ := h
    cases fuel with
    | zero => cases enough
    | succ fuel => exact ih hrest (f b a) (Nat.le_of_succ_le_succ enough)

/-- Pointers outside the list do not matter. -/
theorem Linked.congr {next' : α → Option α} (h : Linked next p l)
    (same : ∀ a ∈ l, next' a = next a) : Linked next' p l := by
  induction l generalizing p with
  | nil => exact h
  | cons a l ih =>
    obtain ⟨rfl, hrest⟩ := h
    refine ⟨rfl, ?_⟩
    rw [same a List.mem_cons_self]
    exact ih hrest fun b hb ↦ same b (List.mem_cons_of_mem a hb)

/-- A list that starts at a node has that node first. -/
theorem Linked.of_some {a : α} (h : Linked next (some a) l) :
    ∃ l', l = a :: l' ∧ Linked next (next a) l' := by
  cases l with
  | nil => cases h
  | cons b l =>
    obtain ⟨hb, hrest⟩ := h
    obtain rfl := Option.some.inj hb
    exact ⟨l, rfl, hrest⟩

/-- A list that starts at the null pointer is empty. -/
theorem Linked.of_none (h : Linked next none l) : l = [] := by
  cases l with
  | nil => rfl
  | cons a l => cases h.1

/-- A head and its pointers have one list. -/
theorem Linked.unique {l' : List α} (h : Linked next p l) (h' : Linked next p l') : l = l' := by
  induction l generalizing p l' with
  | nil =>
    rw [show p = none from h] at h'
    exact h'.of_none.symm
  | cons a l ih =>
    obtain ⟨rfl, hrest⟩ := h
    obtain ⟨l'', rfl, hrest'⟩ := h'.of_some
    rw [ih hrest hrest']

/-- A new node in front. -/
theorem Linked.push {next' : α → Option α} {a : α} (h : Linked next p l)
    (self : next' a = p) (same : ∀ b ∈ l, next' b = next b) :
    Linked next' (some a) (a :: l) :=
  ⟨rfl, by rw [self]; exact h.congr same⟩

end ConcurrentServer.Base
