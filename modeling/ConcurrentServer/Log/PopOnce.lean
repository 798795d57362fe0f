import ConcurrentServer.Log.QueueCalls

/-!
# Consumers of a buffer queue

`src/log/log_queue.h:38–49, 126–214`. Beside the run stand the items that were accepted, how
many of them have left the queue, and which of them each `pop` took. No two calls took the same
one. A `push` wakes every call that waits, and a call that finds the queue empty keeps `b_mutex`
until it blocks, so no call sleeps without a notification while the queue holds an item.
-/

namespace ConcurrentServer.Log
open ConcurrentServer.Base

variable {T : Type}

/-- The call of `pop` that the action moves. -/
def QueueAction.popCall : QueueAction T → Option Nat
  | .pop c _ | .wake c | .timeout c => some c
  | .push _ | .clear | .notify | .block _ => none

/-- What has gone through a queue. -/
structure Taken (T : Type) where
  /-- The items that were accepted, in order. -/
  accepted : List T
  /-- How many of them have left the queue. -/
  front : Nat
  /-- Which of them a call of `pop` took. -/
  source : Nat → Option Nat

namespace QueueCalls

/-- What a step adds to that. -/
def note (s : QueueCalls T) (a : QueueAction T) (t : QueueCalls T) (g : Taken T) : Taken T :=
  match a with
  | .push item =>
    if (s.queue.push item).1 then { g with accepted := g.accepted ++ [item] } else g
  | .clear => { g with front := g.accepted.length }
  | .pop c _ | .wake c | .timeout c =>
    match t.pops c with
    | .returned (some _) =>
      { g with front := g.front + 1, source := Function.update g.source c (some g.front) }
    | _ => g
  | .notify | .block _ => g

/-! ### Steps -/

/-- The steps of a queue and its calls. -/
inductive Step (s : QueueCalls T) : QueueAction T → QueueCalls T → Prop
  | push (item : T) (free : s.bMutex = none) : Step s (.push item) (s.push item)
  | clear (free : s.bMutex = none) :
    Step s .clear { s with queue := s.queue.clear, events := s.events ++ [.clear] }
  | notify : Step s .notify { s with pops := fun c ↦ (s.pops c).notify }
  | empty (c : Nat) (timed : Bool) (free : s.bMutex = none) (empty : s.queue.bSize ≤ 0) :
    Step s (.pop c timed)
      { s with bMutex := some c, pops := Function.update s.pops c (.empty timed) }
  | block (c : Nat) (timed : Bool) (at_ : s.pops c = .empty timed) :
    Step s (.block c)
      { s with bMutex := none, pops := Function.update s.pops c (.waiting timed false) }
  | succeed (a : QueueAction T) (c : Nat) (call : a.popCall = some c) (free : s.bMutex = none)
    (nonempty : ¬ s.queue.bSize ≤ 0) : Step s a (s.succeed c)
  | fail (a : QueueAction T) (c : Nat) (call : a.popCall = some c) (free : s.bMutex = none) :
    Step s a (s.fail c)

variable {s t : QueueCalls T} {a : QueueAction T} {g : Taken T}

/-- The test of the size after a wait. -/
theorem step_retest {c : Nat} (call : a.popCall = some c) (free : s.bMutex = none) :
    Step s a (s.retest c) := by
  unfold retest
  split
  · exact .fail a c call free
  · rename_i hsize
    exact .succeed a c call free hsize

/-- Every step is one of these. -/
theorem step_inversion (h : s.step a = some t) : Step s a t := by
  cases a with
  | push item =>
    simp only [step, Option.ite_none_right_eq_some, Option.some.injEq] at h
    rw [← h.2]
    exact .push item h.1
  | clear =>
    simp only [step, Option.ite_none_right_eq_some, Option.some.injEq] at h
    rw [← h.2]
    exact .clear h.1
  | notify =>
    cases h
    exact .notify
  | pop c timed =>
    simp only [step] at h
    split at h
    · simp only [Option.ite_none_right_eq_some] at h
      have hrest := h.2
      split at hrest
      · rename_i hsize
        cases hrest
        exact .empty c timed h.1 hsize
      · rename_i hsize
        cases hrest
        exact .succeed _ c rfl h.1 hsize
    · cases h
  | block c =>
    simp only [step] at h
    split at h
    · rename_i timed at_
      cases h
      exact .block c timed at_
    · cases h
  | wake c =>
    simp only [step] at h
    split at h
    · simp only [Option.ite_none_right_eq_some, Option.some.injEq] at h
      rw [← h.2]
      exact step_retest rfl h.1
    · cases h
  | timeout c =>
    simp only [step] at h
    split at h
    · simp only [Option.ite_none_right_eq_some, Option.some.injEq] at h
      rw [← h.2]
      exact .fail _ c rfl h.1
    · cases h

/-- What is noted when a call takes the oldest item. -/
theorem note_succeed {c : Nat} (call : a.popCall = some c) :
    note s a (s.succeed c) g =
      { g with front := g.front + 1, source := Function.update g.source c (some g.front) } := by
  have hpc : (s.succeed c).pops c = .returned (some s.queue.take.1) := Function.update_self ..
  cases a with
  | pop | wake | timeout =>
    cases call
    simp only [note, hpc]
  | push | clear | notify | block => cases call

/-- Nothing is noted when a call returns `false`. -/
theorem note_fail {c : Nat} (call : a.popCall = some c) : note s a (s.fail c) g = g := by
  have hpc : (s.fail c).pops c = .returned none := Function.update_self ..
  cases a with
  | pop | wake | timeout =>
    cases call
    simp only [note, hpc]
  | push | clear | notify | block => cases call

/-- A notification reaches no call that has returned. -/
theorem notify_eq_returned {pc : PopPc T} {got : Option T} :
    pc.notify = .returned got ↔ pc = .returned got := by
  cases pc with
  | idle | empty | waiting | returned => simp [PopPc.notify]

/-! ### Each item is taken once -/

/-- The queue holds the accepted items that have not left it, and what the calls took are
different ones of the others. -/
structure Handed (s : QueueCalls T) (g : Taken T) : Prop where
  holds : s.queue.Holds (g.accepted.drop g.front)
  front : g.front ≤ g.accepted.length
  returned : ∀ c item, s.pops c = .returned (some item) →
    ∃ n, g.source c = some n ∧ g.accepted[n]? = some item
  before : ∀ c n, g.source c = some n → n < g.front
  once : ∀ c d n, g.source c = some n → g.source d = some n → c = d

/-- Before the first call. -/
theorem handed_init {cells : Int → T} {capacity : Int} {debug : Bool} (h : 1 ≤ capacity) :
    Handed (init (.fresh cells capacity debug)) ⟨[], 0, fun _ ↦ none⟩ := by
  constructor
  · exact BufferQueue.holds_fresh h
  · exact Nat.le_refl 0
  · intro c item hc
    cases hc
  · intro c n hc
    cases hc
  · intro c d n hc
    cases hc

/-- `push` appends an item that it accepts. -/
theorem Handed.push (h : Handed s g) (item : T) :
    Handed (s.push item) (note s (.push item) (s.push item) g) := by
  by_cases hroom : s.queue.bSize ≥ s.queue.capacity
  · have hpush : s.queue.push item = (false, s.queue) := if_pos hroom
    have hnote : note s (.push item) (s.push item) g = g := by simp [note, hpush]
    rw [hnote]
    constructor
    · simpa only [QueueCalls.push, hpush] using h.holds
    · exact h.front
    · intro c x hc
      exact h.returned c x (notify_eq_returned.mp hc)
    · exact h.before
    · exact h.once
  · have hpush : s.queue.push item = (true, s.queue.store item) := if_neg hroom
    have hnote : note s (.push item) (s.push item) g =
        { g with accepted := g.accepted ++ [item] } := by simp [note, hpush]
    have hfront := h.front
    rw [hnote]
    constructor
    · simp only [QueueCalls.push, hpush]
      rw [List.drop_append_of_le_length hfront]
      exact h.holds.store item hroom
    · show g.front ≤ (g.accepted ++ [item]).length
      rw [List.length_append]
      omega
    · intro c x hc
      obtain ⟨n, hn, hx⟩ := h.returned c x (notify_eq_returned.mp hc)
      refine ⟨n, hn, ?_⟩
      show (g.accepted ++ [item])[n]? = some x
      rw [List.getElem?_append_left (List.getElem?_eq_some_iff.mp hx).1]
      exact hx
    · exact h.before
    · exact h.once

/-- A call takes the oldest item, which no other call has taken. -/
theorem Handed.succeed {c : Nat} (h : Handed s g) (nonempty : ¬ s.queue.bSize ≤ 0) :
    Handed (s.succeed c)
      { g with front := g.front + 1, source := Function.update g.source c (some g.front) } := by
  obtain ⟨l, hl, hholds⟩ := h.holds.take nonempty
  have htail : g.accepted.drop (g.front + 1) = l := by
    rw [← List.tail_drop, hl, List.tail_cons]
  have holdest : g.accepted[g.front]? = some s.queue.take.1 := by
    rw [← List.head?_drop, hl, List.head?_cons]
  constructor
  · show s.queue.take.2.Holds (g.accepted.drop (g.front + 1))
    rw [htail]
    exact hholds
  · exact (List.getElem?_eq_some_iff.mp holdest).1
  · intro d item hd
    by_cases hdc : d = c
    · refine ⟨g.front, ?_, ?_⟩
      · simp only [hdc, Function.update_self]
      · rw [hdc, show (s.succeed c).pops c = _ from Function.update_self ..] at hd
        cases hd
        exact holdest
    · rw [show (s.succeed c).pops d = s.pops d from Function.update_of_ne hdc ..] at hd
      obtain ⟨n, hn, hitem⟩ := h.returned d item hd
      refine ⟨n, ?_, hitem⟩
      rw [← hn]
      exact Function.update_of_ne hdc ..
  · intro d n hd
    show n < g.front + 1
    by_cases hdc : d = c
    · simp only [hdc, Function.update_self] at hd
      cases hd
      omega
    · simp only [Function.update_of_ne hdc] at hd
      have hlt := h.before d n hd
      omega
  · -- The number of the oldest item is above those of all that were taken before.
    intro d e n hd he
    by_cases hdc : d = c
    · by_cases hec : e = c
      · rw [hdc, hec]
      · simp only [hdc, Function.update_self] at hd
        simp only [Function.update_of_ne hec] at he
        have hlt := h.before e n he
        cases hd
        omega
    · by_cases hec : e = c
      · simp only [hec, Function.update_self] at he
        simp only [Function.update_of_ne hdc] at hd
        have hlt := h.before d n hd
        cases he
        omega
      · simp only [Function.update_of_ne hdc] at hd
        simp only [Function.update_of_ne hec] at he
        exact h.once d e n hd he

/-- A call that moves without an item leaves what was handed out. -/
theorem Handed.move (h : Handed s g) {c : Nat} {pc : PopPc T}
    (without : ∀ item, pc ≠ .returned (some item)) (bMutex : Option Nat)
    (events : List (FifoEvent T)) :
    Handed
      { s with bMutex := bMutex, pops := Function.update s.pops c pc, events := events } g := by
  constructor
  · exact h.holds
  · exact h.front
  · intro d item hd
    by_cases hdc : d = c
    · rw [hdc] at hd
      simp only [Function.update_self] at hd
      exact absurd hd (without item)
    · simp only [Function.update_of_ne hdc] at hd
      exact h.returned d item hd
  · exact h.before
  · exact h.once

/-- Every step. -/
theorem Handed.step (h : Handed s g) (hstep : Step s a t) : Handed t (note s a t g) := by
  cases hstep with
  | push item free => exact h.push item
  | clear free =>
    constructor
    · show s.queue.clear.Holds (g.accepted.drop g.accepted.length)
      rw [List.drop_length]
      exact h.holds.clear
    · exact Nat.le_refl _
    · exact h.returned
    · intro c n hc
      exact Nat.lt_of_lt_of_le (h.before c n hc) h.front
    · exact h.once
  | notify =>
    constructor
    · exact h.holds
    · exact h.front
    · intro c item hc
      exact h.returned c item (notify_eq_returned.mp hc)
    · exact h.before
    · exact h.once
  | empty c timed free empty =>
    have hnote : note s (.pop c timed)
        { s with bMutex := some c, pops := Function.update s.pops c (.empty timed) } g = g := by
      simp only [note, Function.update_self]
    rw [hnote]
    exact h.move (by simp) (some c) s.events
  | block c timed at_ => exact h.move (by simp) none s.events
  | succeed a c call free nonempty =>
    rw [note_succeed call]
    exact h.succeed nonempty
  | fail a c call free =>
    have hnone : ∀ item, (.returned none : PopPc T) ≠ .returned (some item) := by simp
    rw [note_fail call]
    exact h.move hnone s.bMutex (s.events ++ [.pop none])

/-! ### No wake-up is lost -/

/-- A call that holds the mutex found the queue empty, and no call waits without a notification
beside an item. -/
structure Notified (s : QueueCalls T) : Prop where
  held : ∀ c timed, s.pops c = .empty timed → s.bMutex = some c ∧ s.queue.bSize ≤ 0
  awake : 0 < s.queue.bSize → ∀ c timed, s.pops c ≠ .waiting timed false

/-- While the mutex is free no call is between its test and its wait. -/
theorem Notified.not_empty (h : Notified s) (free : s.bMutex = none) (c : Nat) (timed : Bool) :
    s.pops c ≠ .empty timed := by
  intro hc
  have hheld := (h.held c timed hc).1
  rw [free] at hheld
  cases hheld

/-- The calls after a notification. -/
theorem notify_ne_waiting (pc : PopPc T) (timed : Bool) : pc.notify ≠ .waiting timed false := by
  cases pc with
  | idle | empty | waiting | returned => simp [PopPc.notify]

/-- A call that a notification leaves before its wait was there. -/
theorem notify_eq_empty {pc : PopPc T} {timed : Bool} :
    pc.notify = .empty timed ↔ pc = .empty timed := by
  cases pc with
  | idle | empty | waiting | returned => simp [PopPc.notify]

/-- A call returns from a queue that does not grow. -/
theorem Notified.finish (h : Notified s) (free : s.bMutex = none) {queue : BufferQueue T}
    (shrinks : queue.bSize ≤ s.queue.bSize) (c : Nat) (got : Option T)
    (events : List (FifoEvent T)) :
    Notified { s with
      queue := queue
      pops := Function.update s.pops c (.returned got)
      events := events } := by
  constructor
  · intro d timed hd
    by_cases hdc : d = c
    · rw [hdc] at hd
      simp only [Function.update_self] at hd
      cases hd
    · simp only [Function.update_of_ne hdc] at hd
      exact absurd hd (h.not_empty free d timed)
  · intro hsize d timed hd
    by_cases hdc : d = c
    · rw [hdc] at hd
      simp only [Function.update_self] at hd
      cases hd
    · simp only [Function.update_of_ne hdc] at hd
      exact h.awake (Int.lt_of_lt_of_le hsize shrinks) d timed hd

/-- Every step. -/
theorem Notified.step (h : Notified s) (hstep : Step s a t) : Notified t := by
  cases hstep with
  | push item free =>
    constructor
    · intro c timed hc
      exact absurd (notify_eq_empty.mp hc) (h.not_empty free c timed)
    · intro _ c timed
      exact notify_ne_waiting (s.pops c) timed
  | clear free =>
    constructor
    · intro c timed hc
      exact absurd hc (h.not_empty free c timed)
    · intro hsize
      exact absurd hsize (Int.lt_irrefl 0)
  | notify =>
    constructor
    · intro c timed hc
      exact h.held c timed (notify_eq_empty.mp hc)
    · intro _ c timed
      exact notify_ne_waiting (s.pops c) timed
  | empty c timed free empty =>
    constructor
    · intro d timed' hd
      by_cases hdc : d = c
      · rw [hdc]
        exact ⟨rfl, empty⟩
      · simp only [Function.update_of_ne hdc] at hd
        exact absurd hd (h.not_empty free d timed')
    · intro hsize
      exact absurd empty (Int.not_le.mpr hsize)
  | block c timed at_ =>
    obtain ⟨hmutex, hempty⟩ := h.held c timed at_
    constructor
    · -- The mutex has one holder, so no other call is before its wait.
      intro d timed' hd
      by_cases hdc : d = c
      · rw [hdc] at hd
        simp only [Function.update_self] at hd
        cases hd
      · simp only [Function.update_of_ne hdc] at hd
        have hheld := (h.held d timed' hd).1
        rw [hmutex] at hheld
        cases hheld
        exact absurd rfl hdc
    · intro hsize
      exact absurd hempty (Int.not_le.mpr hsize)
  | succeed a c call free nonempty =>
    apply h.finish free
    show s.queue.bSize - 1 ≤ s.queue.bSize
    omega
  | fail a c call free => exact h.finish free (Int.le_refl _) c none _

end QueueCalls

/-- On a fresh queue of any capacity, whatever calls run beside each other, what a call of
`pop` returns is an accepted item that no other call has taken, and no call sleeps without a
notification while the queue holds an item. -/
theorem items_popped_once_no_lost_wakeup {cells : Int → T} {capacity : Int} {debug : Bool}
    {s : QueueCalls T} {g : Taken T} (hcap : 1 ≤ capacity)
    (h : Reach (withHistory QueueCalls.step QueueCalls.note)
      (.init (.fresh cells capacity debug), ⟨[], 0, fun _ ↦ none⟩) (s, g)) :
    (∀ c item, s.pops c = .returned (some item) →
      ∃ n, g.source c = some n ∧ g.accepted[n]? = some item) ∧
    (∀ c d n, g.source c = some n → g.source d = some n → c = d) ∧
    (0 < s.queue.bSize → ∀ c timed, s.pops c ≠ .waiting timed false) := by
  have hinv : QueueCalls.Handed s g ∧ QueueCalls.Notified s := by
    apply h.invariant (P := fun s ↦ QueueCalls.Handed s.1 s.2 ∧ QueueCalls.Notified s.1)
    · refine ⟨QueueCalls.handed_init hcap, ?_⟩
      constructor
      · intro c timed hc
        cases hc
      · intro _ c timed hc
        cases hc
    · intro s a t hs _ hstep
      obtain ⟨hmoved, hnote⟩ := withHistory_eq_some.mp hstep
      have hinversion := QueueCalls.step_inversion hmoved
      rw [hnote]
      exact ⟨hs.1.step hinversion, hs.2.step hinversion⟩
  exact ⟨hinv.1.returned, hinv.1.once, hinv.2.awake⟩

/-- Two calls wait, one `push` wakes both, and a call that never slept takes the item; a second
item goes to the first of the two. -/
def oneItemForThree : List (QueueAction Nat) :=
  [.pop 0 false, .block 0, .pop 1 true, .block 1, .push 7, .pop 2 false, .wake 1, .push 8, .wake 0,
    .push 9, .clear, .notify]

/-- Who took what in that run. -/
theorem one_item_for_three_popped_once :
    ∃ s, run (withHistory QueueCalls.step QueueCalls.note)
        (.init (.fresh (fun _ ↦ 0) 1 false), ⟨[], 0, fun _ ↦ none⟩) oneItemForThree = some s ∧
      (∀ c item, s.1.pops c = .returned (some item) →
        ∃ n, s.2.source c = some n ∧ s.2.accepted[n]? = some item) ∧
      (∀ c d n, s.2.source c = some n → s.2.source d = some n → c = d) ∧
      (0 < s.1.queue.bSize → ∀ c timed, s.1.pops c ≠ .waiting timed false) := by
  have hrun : (run (withHistory QueueCalls.step QueueCalls.note)
      (.init (.fresh (fun _ ↦ 0) 1 false), ⟨[], 0, fun _ ↦ none⟩) oneItemForThree).isSome := by
    decide +kernel
  obtain ⟨s, hs⟩ := Option.isSome_iff_exists.mp hrun
  exact ⟨s, hs, items_popped_once_no_lost_wakeup (by decide) (reach_of_run hs)⟩

end ConcurrentServer.Log
