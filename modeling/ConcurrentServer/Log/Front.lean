import ConcurrentServer.Log.PopOnce

/-!
# The oldest item of a buffer queue

`src/log/log_queue.h:38–49, 104–113, 126–214`. `pop` moves its cursor around the ring, `front` adds
one to it. Where the cursor stands follows from the number of items popped since the last `clear`:
on the last cell after every whole round, and there `front` reads behind the array.
-/

namespace ConcurrentServer.Log
open ConcurrentServer.Base

variable {T : Type} {capacity : Int} {debug : Bool}

/-- The number of items popped since the last `clear`, after one more report. -/
def countPopped (popped : Nat) : FifoEvent T → Nat
  | .push _ _ | .pop none => popped
  | .pop (some _) => popped + 1
  | .clear => 0

/-- The number of items popped since the last `clear`. -/
def poppedSinceClear (events : List (FifoEvent T)) : Nat := events.foldl countPopped 0

/-- One more report. -/
@[simp] theorem poppedSinceClear_snoc (events : List (FifoEvent T)) (e : FifoEvent T) :
    poppedSinceClear (events ++ [e]) = countPopped (poppedSinceClear events) e := by
  rw [poppedSinceClear, List.foldl_append]
  rfl

namespace BufferQueue

/-- The index that `front` reads; `src/log/log_queue.h:111`. -/
def frontIndex (q : BufferQueue T) : Int := q.bFirst + 1

/-- `front` reads the cell of its index. -/
theorem front_eq (q : BufferQueue T) (h : q.bSize ≠ 0) :
    q.front = some (q.bArray q.frontIndex) :=
  if_neg h

/-- Where `b_first` stands after so many items. -/
def cursorAfter (capacity : Int) : Nat → Int
  | 0 => -1
  | popped + 1 => popped % capacity

/-- One more item moves the cursor around the ring. -/
theorem cursorAfter_succ (h : 1 ≤ capacity) (popped : Nat) :
    cursorAfter capacity (popped + 1) = (cursorAfter capacity popped + 1).tmod capacity := by
  cases popped with
  | zero =>
    show (0 : Int) % capacity = (0 : Int).tmod capacity
    rw [Int.zero_emod, Int.zero_tmod]
  | succ popped =>
    have hlo := (emod_range (c := (popped : Int)) h).1
    show ((popped + 1 : Nat) : Int) % capacity = ((popped : Int) % capacity + 1).tmod capacity
    rw [tmod_cursor (by omega), Int.emod_add_emod, Int.natCast_succ]

/-- The cell behind the cursor is the one behind the array after a whole number of rounds. -/
theorem cursorAfter_inside_iff (h : 1 ≤ capacity) (popped : Nat) :
    cursorAfter capacity popped + 1 < capacity ↔
      popped = 0 ∨ ¬ capacity ∣ (popped : Int) := by
  cases popped with
  | zero =>
    show (0 : Int) < capacity ↔ _
    exact iff_of_true (by omega) (Or.inl rfl)
  | succ popped =>
    have hrange := emod_range (c := (popped : Int)) h
    have hnext : ((popped : Int) % capacity + 1) % capacity = ((popped : Int) + 1) % capacity :=
      Int.emod_add_emod _ _ _
    have hround : capacity ∣ ((popped + 1 : Nat) : Int) ↔ ((popped : Int) + 1) % capacity = 0 := by
      rw [Int.natCast_succ]
      exact Int.dvd_iff_emod_eq_zero
    show (popped : Int) % capacity + 1 < capacity ↔ _
    rw [hround, ← hnext]
    constructor
    · intro hlt
      right
      rw [Int.emod_eq_of_lt (by omega) hlt]
      omega
    · rintro (hzero | hne)
      · cases hzero
      · refine Int.lt_iff_le_and_ne.mpr ⟨by omega, ?_⟩
        intro hwhole
        apply hne
        rw [hwhole, Int.emod_self]

end BufferQueue

namespace QueueCalls

variable {s t : QueueCalls T} {a : QueueAction T}

/-- The cursor of a queue whose calls have made these reports. -/
def CursorAt (s : QueueCalls T) : Prop :=
  s.queue.bFirst = BufferQueue.cursorAfter s.queue.capacity (poppedSinceClear s.events)

/-- Every step. -/
theorem CursorAt.step (h : s.CursorAt) (hcap : 1 ≤ s.queue.capacity) (hstep : Step s a t) :
    t.CursorAt := by
  cases hstep with
  | push item free =>
    have hqueue : (s.queue.push item).2.bFirst = s.queue.bFirst ∧
        (s.queue.push item).2.capacity = s.queue.capacity := by
      unfold BufferQueue.push
      split
      · exact ⟨rfl, rfl⟩
      · exact ⟨rfl, rfl⟩
    show (s.queue.push item).2.bFirst = BufferQueue.cursorAfter (s.queue.push item).2.capacity
      (poppedSinceClear (s.events ++ [.push item (s.queue.push item).1]))
    rw [poppedSinceClear_snoc, hqueue.1, hqueue.2]
    exact h
  | clear free =>
    show (-1 : Int) = BufferQueue.cursorAfter _ (poppedSinceClear (s.events ++ [.clear]))
    rw [poppedSinceClear_snoc]
    rfl
  | notify => exact h
  | empty c timed free empty => exact h
  | block c timed at_ => exact h
  | succeed a c call free nonempty =>
    show (s.queue.bFirst + 1).tmod s.queue.capacity = BufferQueue.cursorAfter s.queue.capacity
      (poppedSinceClear (s.events ++ [.pop (some s.queue.take.1)]))
    rw [poppedSinceClear_snoc, show s.queue.bFirst = _ from h]
    exact (BufferQueue.cursorAfter_succ hcap _).symm
  | fail a c call free =>
    show s.queue.bFirst = BufferQueue.cursorAfter _ (poppedSinceClear (s.events ++ [.pop none]))
    rw [poppedSinceClear_snoc]
    exact h

/-- `front` reads an index of the array, and the item that the next `pop` returns, be it a new
call or one that wakes up. -/
def FrontAgrees (s : QueueCalls T) : Prop :=
  (0 ≤ s.queue.frontIndex ∧ s.queue.frontIndex < s.queue.capacity) ∧
    s.queue.front = some s.queue.take.1 ∧
    ∀ a c t, a.popCall = some c → a ≠ .timeout c → s.step a = some t →
      t.pops c = .returned s.queue.front

/-- On a queue with items, a call that does not report a timeout returns the oldest one. -/
theorem pops_of_step {c : Nat} (hsize : ¬ s.queue.bSize ≤ 0) (call : a.popCall = some c)
    (ontime : a ≠ .timeout c) (hstep : s.step a = some t) :
    t.pops c = .returned (some s.queue.take.1) := by
  cases a with
  | push item => cases call
  | clear => cases call
  | notify => cases call
  | block d => cases call
  | pop d timed =>
    cases call
    simp only [step] at hstep
    split at hstep
    · rw [if_neg hsize, Option.ite_none_right_eq_some] at hstep
      cases hstep.2
      exact Function.update_self ..
    · cases hstep
  | wake d =>
    cases call
    simp only [step] at hstep
    split at hstep
    · rw [retest, if_neg hsize, Option.ite_none_right_eq_some] at hstep
      cases hstep.2
      exact Function.update_self ..
    · cases hstep
  | timeout d =>
    cases call
    exact absurd rfl ontime

/-- Where the cursor stands says whether `front` agrees with `pop`. -/
theorem CursorAt.frontAgrees_iff (h : s.CursorAt) {l : List T} (hholds : s.queue.Holds l)
    (hsize : s.queue.bSize ≠ 0) : s.FrontAgrees ↔
      poppedSinceClear s.events = 0 ∨
        ¬ s.queue.capacity ∣ (poppedSinceClear s.events : Int) := by
  have hfirst := hholds.first
  have hnonempty : ¬ s.queue.bSize ≤ 0 := by
    have hnonneg := hholds.size.1
    omega
  rw [← BufferQueue.cursorAfter_inside_iff hholds.capacity, ← show s.queue.bFirst = _ from h]
  constructor
  · rintro ⟨⟨-, hinside⟩, -⟩
    exact hinside
  · intro hinside
    have hindex : (s.queue.bFirst + 1).tmod s.queue.capacity = s.queue.frontIndex :=
      Int.tmod_eq_of_lt (by omega) hinside
    have hfront : s.queue.front = some s.queue.take.1 := by
      rw [s.queue.front_eq hsize, BufferQueue.take, hindex]
    refine ⟨⟨by rw [BufferQueue.frontIndex]; omega, hinside⟩, hfront, ?_⟩
    intro a c t call ontime hstep
    rw [hfront]
    exact pops_of_step hnonempty call ontime hstep

end QueueCalls

/-- On a fresh queue of any capacity, whatever calls have been made, `front` reads inside the
array and agrees with the next `pop` on a queue with items exactly when the number of items popped
since the last `clear` is no positive multiple of the capacity. -/
theorem front_agrees_iff {cells : Int → T} {s : QueueCalls T} (hcap : 1 ≤ capacity)
    (h : Reach QueueCalls.step (.init (.fresh cells capacity debug)) s)
    (hsize : s.queue.bSize ≠ 0) :
    s.FrontAgrees ↔
      poppedSinceClear s.events = 0 ∨ ¬ capacity ∣ (poppedSinceClear s.events : Int) := by
  have hinv : (∃ l, s.Refines capacity debug l) ∧ s.CursorAt := by
    apply h.invariant (P := fun s ↦ (∃ l, s.Refines capacity debug l) ∧ s.CursorAt)
    · exact ⟨⟨[], QueueCalls.refines_init hcap⟩, rfl⟩
    · intro s a t hs _ hstep
      obtain ⟨⟨l, hl⟩, hcursor⟩ := hs
      exact ⟨hl.step hstep, hcursor.step hl.holds.capacity (QueueCalls.step_inversion hstep)⟩
  obtain ⟨⟨l, hl⟩, hcursor⟩ := hinv
  rw [hcursor.frontAgrees_iff hl.holds hsize, hl.sameCapacity]

/-- A queue of two cells is filled, and one item is popped. -/
def halfRound : List (QueueAction Nat) := [.push 1, .push 2, .pop 0 false]

/-- After half a round `front` agrees with `pop`. -/
theorem front_agrees_after_half_round :
    ∃ s, run QueueCalls.step (.init (.fresh (fun _ ↦ 0) 2 true)) halfRound = some s ∧
      (s.FrontAgrees ↔
        poppedSinceClear s.events = 0 ∨ ¬ (2 : Int) ∣ (poppedSinceClear s.events : Int)) := by
  have hrun : ∃ s, run QueueCalls.step (.init (.fresh (fun _ ↦ 0) 2 true)) halfRound = some s ∧
      s.queue.bSize ≠ 0 := by
    refine ⟨_, rfl, ?_⟩
    decide +kernel
  obtain ⟨s, hs, hsize⟩ := hrun
  exact ⟨s, hs, front_agrees_iff (by decide) (reach_of_run hs) hsize⟩

/-- In a queue of one cell the second item is not the one that `front` reads. -/
theorem front_behind_array :
    ¬ ∀ s : QueueCalls Nat, Reach QueueCalls.step (.init (.fresh (fun _ ↦ 0) 1 false)) s →
      s.queue.bSize ≠ 0 → s.FrontAgrees := by
  intro h
  have hrun : ∃ s, run QueueCalls.step (.init (.fresh (fun _ ↦ 0) 1 false))
      [.push 7, .pop 0 false, .push 8] = some s ∧ s.queue.bSize ≠ 0 ∧
        s.queue.frontIndex = s.queue.capacity := by
    refine ⟨_, rfl, ?_⟩
    decide +kernel
  obtain ⟨s, hs, hsize, hindex⟩ := hrun
  have hinside := (h s (reach_of_run hs) hsize).1.2
  rw [hindex] at hinside
  exact absurd hinside (Int.lt_irrefl _)

end ConcurrentServer.Log
