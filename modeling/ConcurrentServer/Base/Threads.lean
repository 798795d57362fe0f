import Mathlib.Algebra.Order.Ring.Nat
import Mathlib.Data.List.Basic
import Mathlib.Data.Nat.Count
import Mathlib.Logic.Function.Basic

/-!
# Threads

Library `Base`. The threads of a system are a list, or a function, of the places they are at; a
step of one thread replaces one place. What is counted over the threads changes by that thread's
share, and what is read off a place that keeps it is the same for all threads.
-/

namespace ConcurrentServer.Base

universe u v w

/-- What is read off a thread that moves without changing it is the same for all threads. -/
theorem apply_update_of_same {ι : Type u} {α : Type v} {β : Type w} [DecidableEq ι] (f : α → β)
    {threads : ι → α} {i : ι} {place : α} (same : f place = f (threads i)) (j : ι) :
    f (Function.update threads i place j) = f (threads j) := by
  by_cases hj : j = i
  · rw [hj, Function.update_self, same]
  · rw [Function.update_of_ne hj]

/-- The number of marked threads among the first, when one of these moves. -/
theorem count_update {P : Type u} (marked : P → Bool) (threads : Nat → P) {n i : Nat} (hi : i < n)
    (place : P) :
    Nat.count (fun j ↦ marked (Function.update threads i place j)) n +
        (if marked (threads i) then 1 else 0) =
      Nat.count (fun j ↦ marked (threads j)) n + (if marked place then 1 else 0) := by
  induction n with
  | zero => exact absurd hi (Nat.not_lt_zero i)
  | succ n ih =>
    rw [Nat.count_succ, Nat.count_succ]
    by_cases hin : i = n
    · have hbelow : Nat.count (fun j ↦ marked (Function.update threads i place j)) n =
          Nat.count (fun j ↦ marked (threads j)) n := by
        apply List.countP_congr
        intro j hj
        have hne : j ≠ i := by
          have hlt := List.mem_range.mp hj
          omega
        beta_reduce
        rw [Function.update_of_ne hne]
      rw [hbelow, hin, Function.update_self]
      omega
    · have hbelow := ih (by omega)
      rw [Function.update_of_ne (Ne.symm hin)]
      omega

/-- What is read off a thread stays when one thread moves that keeps it. -/
theorem apply_update_of_keeps {ι : Type u} {α : Type v} {β : Type w} [DecidableEq ι]
    {f : α → Option β} {threads : ι → α} {i j : ι} {place : α} {b : β}
    (h : f (threads j) = some b) (keeps : f (threads i) = some b → f place = some b) :
    f (Function.update threads i place j) = some b := by
  by_cases hj : j = i
  · rw [hj, Function.update_self]
    rw [hj] at h
    exact keeps h
  · rw [Function.update_of_ne hj]
    exact h

/-- A thread of a kind is still there when one thread moves that stays of the kind. -/
theorem exists_update_of_keeps {ι : Type u} {α : Type v} [DecidableEq ι] {f : α → Bool}
    {threads : ι → α} {i : ι} {place : α} (h : ∃ j, f (threads j) = true)
    (keeps : f (threads i) = true → f place = true) :
    ∃ j, f (Function.update threads i place j) = true := by
  obtain ⟨j, hj⟩ := h
  by_cases hi : j = i
  · rw [hi] at hj
    exact ⟨i, by rw [Function.update_self]; exact keeps hj⟩
  · exact ⟨j, by rw [Function.update_of_ne hi]; exact hj⟩

/-- Who is marked after one thread has been marked is that thread or was marked before. -/
theorem of_update_true {ι : Type u} [DecidableEq ι] {marked : ι → Bool} {i j : ι}
    (h : Function.update marked i true j = true) : j = i ∨ marked j = true := by
  by_cases hj : j = i
  · exact Or.inl hj
  · rw [Function.update_of_ne hj] at h
    exact Or.inr h

/-- Who is marked after one thread has been unmarked was marked before and is another thread. -/
theorem of_update_false {ι : Type u} [DecidableEq ι] {marked : ι → Bool} {i j : ι}
    (h : Function.update marked i false j = true) : j ≠ i ∧ marked j = true := by
  by_cases hj : j = i
  · rw [hj, Function.update_self] at h
    cases h
  · rw [Function.update_of_ne hj] at h
    exact ⟨hj, h⟩

variable {P : Type u} {pool : List P} {k : Nat} {pc : P}

/-- The threads at places of one kind, after one thread has moved. -/
theorem countP_setThread (p : P → Bool) (at_ : pool[k]? = some pc) (pc' : P) :
    (pool.set k pc').countP p + (if p pc then 1 else 0) =
      pool.countP p + (if p pc' then 1 else 0) := by
  obtain ⟨hlt, hget⟩ := List.getElem?_eq_some_iff.mp at_
  have hpos : p pc = true → 0 < pool.countP p := by
    intro hp
    apply List.countP_pos_iff.mpr
    exact ⟨pc, List.mem_of_getElem? at_, hp⟩
  rw [List.countP_set hlt, hget]
  split
  · rename_i hp
    have hone := hpos hp
    omega
  · omega

/-- A thread that moves between places of one kind does not change their number. -/
theorem countP_setThread_eq (p : P → Bool) (at_ : pool[k]? = some pc) {pc' : P}
    (same : p pc' = p pc) : (pool.set k pc').countP p = pool.countP p := by
  have hcount := countP_setThread p at_ pc'
  rw [same] at hcount
  omega

/-- A sum over the threads, after one thread has moved. -/
theorem sum_map_setThread (f : P → Nat) (at_ : pool[k]? = some pc) (pc' : P) :
    ((pool.set k pc').map f).sum + f pc = (pool.map f).sum + f pc' := by
  induction pool generalizing k with
  | nil => cases at_
  | cons first rest ih =>
    cases k with
    | zero =>
      cases at_
      rw [List.set_cons_zero, List.map_cons, List.map_cons, List.sum_cons, List.sum_cons]
      omega
    | succ k =>
      have hrest := ih at_
      rw [List.set_cons_succ, List.map_cons, List.map_cons, List.sum_cons, List.sum_cons]
      omega

/-- Each place of the pool after one thread has moved is the new one or was there before. -/
theorem getElem?_setThread {i : Nat} {pc' : P} (at_ : pool[k]? = some pc) :
    (pool.set k pc')[i]? = if i = k then some pc' else pool[i]? := by
  obtain ⟨hlt, -⟩ := List.getElem?_eq_some_iff.mp at_
  by_cases hi : i = k
  · rw [if_pos hi, hi, List.getElem?_set_self hlt]
  · rw [if_neg hi, List.getElem?_set_ne (Ne.symm hi)]

/-- What is read off all places stays when a thread moves that keeps it. -/
theorem map_setThread_eq {Q : Type v} (f : P → Q) (at_ : pool[k]? = some pc) {pc' : P}
    (same : f pc' = f pc) : (pool.set k pc').map f = pool.map f := by
  apply List.ext_getElem?
  intro i
  rw [List.getElem?_map, List.getElem?_map, getElem?_setThread at_]
  split
  · next hi => rw [hi, at_, Option.map_some, Option.map_some, same]
  · rfl

/-- The last place changes. -/
theorem set_length_append_singleton (before : List P) (last new : P) :
    (before ++ [last]).set before.length new = before ++ [new] := by
  rw [List.set_append, if_neg (Nat.lt_irrefl _), Nat.sub_self]
  rfl

end ConcurrentServer.Base
