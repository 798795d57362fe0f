import Mathlib.Data.List.Basic

/-!
# Bounded FIFO queues

Library `Base`. A queue of at most `capacity` items is a list with the oldest item in front.
`FifoStep` says which reports of an operation are right at a list and what they leave;
`FifoRun` collects the reports of a whole history.
-/

namespace ConcurrentServer.Base

universe u

variable {α : Type u} {capacity : Nat}

/-- What an operation on a bounded queue reports. -/
inductive FifoEvent (α : Type u)
  /-- An item was offered; `ok` says whether it was accepted. -/
  | push (item : α) (ok : Bool)
  /-- The oldest item was asked for; nothing was handed out if `got` is empty. -/
  | pop (got : Option α)
  /-- All items were discarded. -/
  | clear
  deriving DecidableEq, Repr

/-- One operation of a bounded queue: its content, its report and the content after it. -/
inductive FifoStep (capacity : Nat) : List α → FifoEvent α → List α → Prop
  | push {l : List α} (item : α) : l.length < capacity →
      FifoStep capacity l (.push item true) (l ++ [item])
  | full {l : List α} (item : α) : capacity ≤ l.length →
      FifoStep capacity l (.push item false) l
  | pop (item : α) (l : List α) : FifoStep capacity (item :: l) (.pop (some item)) l
  | fail (l : List α) : FifoStep capacity l (.pop none) l
  | clear (l : List α) : FifoStep capacity l .clear []

/-- A history of reports from the empty queue on, and the content it leaves. -/
inductive FifoRun (capacity : Nat) : List (FifoEvent α) → List α → Prop
  | nil : FifoRun capacity [] []
  | snoc {es : List (FifoEvent α)} {e : FifoEvent α} {l l' : List α} :
      FifoRun capacity es l → FifoStep capacity l e l' → FifoRun capacity (es ++ [e]) l'

/-- A bounded queue never holds more than its capacity. -/
theorem FifoRun.length_le {es : List (FifoEvent α)} {l : List α} (h : FifoRun capacity es l) :
    l.length ≤ capacity := by
  induction h with
  | nil => exact Nat.zero_le _
  | snoc _ hstep ih =>
    cases hstep with
    | push item hlt =>
      rw [List.length_append]
      exact hlt
    | full item hle => exact ih
    | pop item l =>
      rw [List.length_cons] at ih
      omega
    | fail l => exact ih
    | clear l => exact Nat.zero_le _

end ConcurrentServer.Base
