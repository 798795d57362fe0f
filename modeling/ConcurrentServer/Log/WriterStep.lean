import ConcurrentServer.Log.AsyncLog

/-!
# Steps of the asynchronous logger

What a step of `AsyncLog.step` can do, one constructor for each statement. From this, the order in
which records go through the queue: what was written, what the writer has in hand and what is
queued are, one behind the other, what was pushed, but for the record that the writer drops when
it ends.
-/

namespace ConcurrentServer.Log
open ConcurrentServer.Base

variable {T : Type}

namespace WriterPc

/-- The writer holds the oldest records that are not written yet. -/
def inHand (pc : WriterPc T) : List T := pc.tested ++ pc.untested

/-- The place from which a record is taken: `pop`, before or after the wait. -/
def taking : WriterPc T → Bool
  | .pop | .waiting _ => true
  | .empty | .test _ | .fputs _ | .done => false

@[simp] theorem inHand_notify (pc : WriterPc T) : pc.notify.inHand = pc.inHand := by
  cases pc <;> rfl

/-- Who takes a record has none in hand. -/
theorem inHand_of_taking {pc : WriterPc T} (h : pc.taking = true) : pc.inHand = [] := by
  cases pc <;> first | rfl | cases h

end WriterPc

namespace AsyncLog

/-- The statements of the threads at work on the logger. -/
inductive Step (s : AsyncLog T) : LogAction T → AsyncLog T → Prop
  | log (c : Nat) (logStr : T) (at_ : s.calls c = .idle) :
    Step s (.log c logStr) (s.setCall c (.push logStr))
  | pushed (c : Nat) (logStr : T) (at_ : s.calls c = .push logStr)
    (free : s.writer.holdsMutex = false)
    (room : ¬ s.lBufferQueue.bSize ≥ s.lBufferQueue.capacity) :
    Step s (.call c)
      { s.setCall c (.returned true) with
        lBufferQueue := s.lBufferQueue.store logStr
        writer := s.writer.notify
        pushed := s.pushed ++ [logStr] }
  | refused (c : Nat) (logStr : T) (at_ : s.calls c = .push logStr)
    (free : s.writer.holdsMutex = false)
    (full : s.lBufferQueue.bSize ≥ s.lBufferQueue.capacity) :
    Step s (.call c) { s.setCall c (.test logStr) with writer := s.writer.notify }
  | retry (c : Nat) (logStr : T) (at_ : s.calls c = .test logStr) :
    Step s (.call c)
      (s.setCall c (if s.isThreadStop then .returned false else .push logStr))
  | empty (at_ : s.writer = .pop) (empty : s.lBufferQueue.bSize ≤ 0) :
    Step s .writer { s with writer := .empty }
  | block (at_ : s.writer = .empty) : Step s .writer { s with writer := .waiting false }
  | take (at_ : s.writer.taking = true) (some_ : ¬ s.lBufferQueue.bSize ≤ 0) :
    Step s .writer s.takeStmt
  | fail (notified : Bool) (at_ : s.writer = .waiting notified)
    (empty : s.lBufferQueue.bSize ≤ 0) : Step s .writer { s with writer := .done }
  | drop (singleLine : T) (at_ : s.writer = .test singleLine) (stop : s.isThreadStop = true) :
    Step s .writer { s with writer := .done }
  | pass (singleLine : T) (at_ : s.writer = .test singleLine) (run : s.isThreadStop = false) :
    Step s .writer { s with writer := .fputs singleLine }
  | fputs (singleLine : T) (at_ : s.writer = .fputs singleLine) :
    Step s .writer { s with writer := .pop, lFp := s.lFp ++ [singleLine] }
  | destroy (at_ : s.destructor = .idle) :
    Step s .destroy { s with destructor := .stop, pushedBefore := s.pushed }
  | stop (at_ : s.destructor = .stop) :
    Step s .destructor { s with destructor := .notify, isThreadStop := true }
  | notify (at_ : s.destructor = .notify) :
    Step s .destructor { s with destructor := .join, writer := s.writer.notify }
  | join (at_ : s.destructor = .join) (ended : s.writer = .done) :
    Step s .destructor { s with destructor := .returned }

variable {s t : AsyncLog T} {l : List T} {a : LogAction T}

/-- Steps of the push loop. -/
theorem step_of_callStep {c : Nat} (h : s.callStep c = some t) : Step s (.call c) t := by
  unfold callStep at h
  split at h
  · rename_i logStr at_
    split at h
    · cases h
    · rename_i free
      rw [Bool.not_eq_true] at free
      cases h
      unfold pushStmt BufferQueue.push
      by_cases room : s.lBufferQueue.bSize ≥ s.lBufferQueue.capacity
      · rw [if_pos room]
        exact .refused c logStr at_ free room
      · rw [if_neg room, if_pos rfl]
        exact .pushed c logStr at_ free room
  · rename_i logStr at_
    cases h
    exact .retry c logStr at_
  · cases h
  · cases h

/-- Steps of the writer. -/
theorem step_of_writerStep (h : s.writerStep = some t) : Step s .writer t := by
  unfold writerStep at h
  split at h
  · rename_i at_
    split at h
    · rename_i empty
      cases h
      exact .empty at_ empty
    · rename_i some_
      cases h
      exact .take (by rw [at_]; rfl) some_
  · rename_i at_
    cases h
    exact .block at_
  · rename_i notified at_
    split at h
    · rename_i empty
      cases h
      exact .fail notified at_ empty
    · rename_i some_
      cases h
      exact .take (by rw [at_]; rfl) some_
  · rename_i singleLine at_
    cases h
    by_cases stop : s.isThreadStop = true
    · rw [if_pos stop]
      exact .drop singleLine at_ stop
    · rw [if_neg stop]
      exact .pass singleLine at_ (Bool.eq_false_of_not_eq_true stop)
  · rename_i singleLine at_
    cases h
    exact .fputs singleLine at_
  · cases h

/-- Steps of the destructor. -/
theorem step_of_destructorStep (h : s.destructorStep = some t) : Step s .destructor t := by
  unfold destructorStep at h
  split at h
  · rename_i at_
    cases h
    exact .stop at_
  · rename_i at_
    cases h
    exact .notify at_
  · rename_i at_
    split at h
    · rename_i ended
      cases h
      exact .join at_ ended
    · cases h
  · cases h
  · cases h

/-- Every step is one of these. -/
theorem step_inversion (h : s.step a = some t) : Step s a t := by
  unfold step at h
  split at h
  · cases h
  cases a with
  | log c logStr =>
    simp only at h
    split at h
    · rename_i at_
      cases h
      exact .log c logStr at_
    · cases h
  | call c => exact step_of_callStep h
  | writer => exact step_of_writerStep h
  | destroy =>
    simp only at h
    split at h
    · rename_i at_
      cases h
      exact .destroy at_
    · cases h
  | destructor => exact step_of_destructorStep h

/-! ### The order of the records -/

/-- What was written, what the writer has in hand, what it has dropped and what is queued are
together what was pushed. -/
structure Ordered (s : AsyncLog T) (l : List T) : Prop where
  holds : s.lBufferQueue.Holds l
  inOrder : ∃ dropped, s.pushed = s.lFp ++ s.writer.inHand ++ (dropped ++ l) ∧
    (dropped ≠ [] → s.writer = .done)

/-- Before the first step. -/
theorem ordered_init {cells : Int → T} {bufferQueueSize : Int} (h : 1 ≤ bufferQueueSize) :
    (init cells bufferQueueSize).Ordered [] :=
  ⟨BufferQueue.holds_fresh h, [], rfl, fun hne ↦ absurd rfl hne⟩

/-- The queue and the records stay where they are. -/
theorem Ordered.of_same (h : s.Ordered l) (queue : t.lBufferQueue = s.lBufferQueue)
    (pushed : t.pushed = s.pushed) (lFp : t.lFp = s.lFp)
    (hand : t.writer.inHand = s.writer.inHand) (ended : s.writer = .done → t.writer = .done) :
    t.Ordered l := by
  obtain ⟨dropped, hpushed, hdone⟩ := h.inOrder
  refine ⟨by rw [queue]; exact h.holds, dropped, ?_, fun hne ↦ ended (hdone hne)⟩
  rw [pushed, lFp, hand]
  exact hpushed

/-- While the writer has not ended, it has dropped nothing. -/
theorem Ordered.alive (h : s.Ordered l) (alive : s.writer ≠ .done) :
    s.pushed = s.lFp ++ s.writer.inHand ++ l := by
  obtain ⟨dropped, hpushed, hdone⟩ := h.inOrder
  have hnil : dropped = [] := by
    by_contra hne
    exact alive (hdone hne)
  rw [hpushed, hnil]
  rfl

/-- Every step. -/
theorem Ordered.step (h : s.Ordered l) (hstep : Step s a t) : ∃ l', t.Ordered l' := by
  cases hstep with
  | log | retry | destroy | stop | join => exact ⟨l, h.of_same rfl rfl rfl rfl id⟩
  | refused | notify =>
    exact ⟨l, h.of_same rfl rfl rfl (WriterPc.inHand_notify s.writer) notify_eq_done⟩
  | pushed c logStr at_ free room =>
    obtain ⟨dropped, hpushed, hdone⟩ := h.inOrder
    refine ⟨l ++ [logStr], h.holds.store logStr room, dropped, ?_, fun hne ↦ ?_⟩
    · show s.pushed ++ [logStr] = s.lFp ++ s.writer.notify.inHand ++ (dropped ++ (l ++ [logStr]))
      rw [WriterPc.inHand_notify, hpushed]
      simp only [List.append_assoc]
    · exact notify_eq_done (hdone hne)
  | empty at_ empty =>
    refine ⟨l, h.of_same rfl rfl rfl (by rw [at_]; rfl) ?_⟩
    intro hdone
    rw [at_] at hdone
    cases hdone
  | block at_ =>
    refine ⟨l, h.of_same rfl rfl rfl (by rw [at_]; rfl) ?_⟩
    intro hdone
    rw [at_] at hdone
    cases hdone
  | take at_ some_ =>
    obtain ⟨l', hl, hholds⟩ := h.holds.take some_
    have halive : s.writer ≠ .done := by
      intro hdone
      rw [hdone] at at_
      cases at_
    refine ⟨l', hholds, [], ?_, fun hne ↦ absurd rfl hne⟩
    show s.pushed = s.lFp ++ [s.lBufferQueue.take.1] ++ ([] ++ l')
    rw [h.alive halive, WriterPc.inHand_of_taking at_, hl]
    simp
  | fail notified at_ empty =>
    refine ⟨l, h.of_same rfl rfl rfl (by rw [at_]; rfl) fun _ ↦ rfl⟩
  | drop singleLine at_ stop =>
    refine ⟨l, h.holds, [singleLine], ?_, fun _ ↦ rfl⟩
    show s.pushed = s.lFp ++ [] ++ ([singleLine] ++ l)
    rw [h.alive (by simp [at_]), at_]
    simp [WriterPc.inHand, WriterPc.tested, WriterPc.untested]
  | pass singleLine at_ run =>
    refine ⟨l, h.holds, [], ?_, fun hne ↦ absurd rfl hne⟩
    show s.pushed = s.lFp ++ [singleLine] ++ ([] ++ l)
    rw [h.alive (by simp [at_]), at_]
    rfl
  | fputs singleLine at_ =>
    refine ⟨l, h.holds, [], ?_, fun hne ↦ absurd rfl hne⟩
    show s.pushed = s.lFp ++ [singleLine] ++ [] ++ ([] ++ l)
    rw [h.alive (by simp [at_]), at_]
    simp [WriterPc.inHand, WriterPc.tested, WriterPc.untested]

/-- In every reached state of a logger with a queue. -/
theorem ordered_of_reach {cells : Int → T} {bufferQueueSize : Int} (hsize : 1 ≤ bufferQueueSize)
    (h : Reach step (init cells bufferQueueSize) s) : ∃ l, s.Ordered l := by
  apply h.invariant (P := fun s ↦ ∃ l, s.Ordered l)
  · exact ⟨[], ordered_init hsize⟩
  · intro s a t hs _ hstep
    obtain ⟨l, hl⟩ := hs
    exact hl.step (step_inversion hstep)

end AsyncLog

/-- At every moment, what the writer has written is a prefix of what was pushed. -/
theorem AsyncLog.written_prefix_of_pushed {cells : Int → T} {bufferQueueSize : Int}
    {s : AsyncLog T} (hsize : 1 ≤ bufferQueueSize)
    (h : Reach AsyncLog.step (.init cells bufferQueueSize) s) : s.lFp <+: s.pushed := by
  obtain ⟨l, hl⟩ := AsyncLog.ordered_of_reach hsize h
  obtain ⟨dropped, hpushed, -⟩ := hl.inOrder
  rw [hpushed, List.append_assoc]
  exact List.prefix_append _ _

end ConcurrentServer.Log
