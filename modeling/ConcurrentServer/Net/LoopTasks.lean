import ConcurrentServer.Base.Threads
import ConcurrentServer.Net.LoopStep
import Mathlib.Data.List.Basic

/-!
# The queued tasks of the event loop

`src/net/event_loop.cpp:27–78`. Of the executions, those of the constructor's own thread are
inline; every other one is that of a queued task. A queued task is in one place, and the loop
does not sleep while the list holds one that no thread is about to wake it for.
-/

namespace ConcurrentServer.Net
open ConcurrentServer.Base

/-- The functors that are still to be called. -/
def LoopPc.functors : LoopPc → List Task
  | .batch functors => functors
  | .before | .test | .poll | .readEvfd | .deal | .swap | .done => []

namespace LoopSystem

variable {ctor runner : ThreadId} {s s' : LoopSystem} {h h' : LoopHistory} {a : LoopAction}

/-- The queued tasks that have run, in order. -/
def queuedRuns (s : LoopSystem) : List Task :=
  (s.executed.map Execution.task).filter fun x ↦ x.caller != s.el.elTid

/-- What an execution adds. -/
theorem queuedRuns_append (s : LoopSystem) (x : Task) (t : ThreadId) (pc : LoopPc)
    (calls : ThreadId → List CallPc) :
    queuedRuns ⟨s.el, pc, calls, s.executed ++ [⟨x, t⟩]⟩ =
      s.queuedRuns ++ if x.caller = s.el.elTid then [] else [x] := by
  unfold queuedRuns
  rw [List.map_append, List.filter_append]
  congr 1
  by_cases hx : x.caller = s.el.elTid
  · rw [if_pos hx]
    simp [hx]
  · rw [if_neg hx]
    simp [hx]

/-- Every insertion is in one place: the task has run, is in the batch or in the list, and it
goes from one to the other in the order of the insertions. -/
def Placed (s : LoopSystem) (h : LoopHistory) : Prop :=
  h.inserted = s.queuedRuns ++ s.pc.functors ++ s.el.elTaskFuncs

/-- Outside the batch the functors are none, before and after. -/
theorem Placed.move (hp : s.Placed h) {pc : LoopPc} {el : EventLoop} {executed : List Execution}
    {calls : ThreadId → List CallPc} (runs : queuedRuns ⟨el, pc, calls, executed⟩ = s.queuedRuns)
    (functors : pc.functors = s.pc.functors) (list : el.elTaskFuncs = s.el.elTaskFuncs) :
    Placed ⟨el, pc, calls, executed⟩ h := by
  show h.inserted = queuedRuns ⟨el, pc, calls, executed⟩ ++ pc.functors ++ el.elTaskFuncs
  rw [runs, functors, list]
  exact hp

/-- Every step. -/
theorem Placed.step (hp : s.Placed h) (hc : s.Confined ctor runner)
    (hstep : Step runner s h a s' h') : s'.Placed h' := by
  have hplaced : h.inserted = s.queuedRuns ++ s.pc.functors ++ s.el.elTaskFuncs := hp
  cases hstep with
  | addTask | callQuit | lock | inlined | quit | toWake | ret | wake => exact hp
  | inline t x rest top own =>
    have hcaller : x.caller = s.el.elTid := by
      have ht : s.el.elTid = t := eq_of_beq own
      have hx : x.caller = t := by
        apply hc.entered t x
        rw [top]
        exact List.mem_cons_self
      rw [hx, ht]
    have hruns := queuedRuns_append s x t s.pc (s.setCalls t (.inline x :: rest)).calls
    rw [if_pos hcaller, List.append_nil] at hruns
    exact hp.move hruns rfl rfl
  | push t x rest top =>
    show h.inserted ++ [x] = s.queuedRuns ++ s.pc.functors ++ (s.el.elTaskFuncs ++ [x])
    rw [hplaced, List.append_assoc _ _ [x]]
  | start ready at_ | done ready at_ | wait ready at_ | report ready at_ | timeout ready at_
  | readEvfd ready at_ | deal ready at_ | finish ready at_ =>
    refine hp.move rfl ?_ rfl
    rw [at_]
    rfl
  | swap ready at_ =>
    show h.inserted = s.queuedRuns ++ s.el.elTaskFuncs ++ []
    rw [hplaced, at_, List.append_nil]
    exact congrArg (· ++ s.el.elTaskFuncs) (List.append_nil _)
  | task ready x rest at_ =>
    have hcaller : x.caller ≠ s.el.elTid := by
      rw [hc.elTid]
      exact hc.batch _ at_ x List.mem_cons_self
    show h.inserted = queuedRuns ⟨s.el, .batch rest, s.calls, s.executed ++ [⟨x, runner⟩]⟩ ++
      rest ++ s.el.elTaskFuncs
    rw [queuedRuns_append s x runner, if_neg hcaller, hplaced, at_]
    simp [LoopPc.functors]

/-- Who inserts or has inserted a task is not the thread that constructed the loop and so goes
on to wake it; until then, or until the wake-up is seen, or when the list is about to be swapped
out, the list may hold tasks. -/
structure Awake (s : LoopSystem) (h : LoopHistory) : Prop where
  push : ∀ t x, .push x ∈ s.calls t → s.el.isInLoopThread t = false
  inserting : ∀ t, h.inserting t = true → s.el.isInLoopThread t = false
  awake : s.el.elTaskFuncs ≠ [] →
    0 < s.el.evfd ∨ (∃ t, h.inserting t = true) ∨ s.pc = .deal ∨ s.pc = .swap

/-- What is below the top of a stack is in it. -/
theorem push_mem_of_top {t : ThreadId} {c : CallPc} {rest stack : List CallPc}
    (top : s.calls t = c :: rest) (below : ∀ x, .push x ∈ stack → .push x ∈ rest) (x : Task)
    (hx : .push x ∈ stack) : .push x ∈ s.calls t := by
  rw [top]
  exact List.mem_cons_of_mem c (below x hx)

/-- A call moves on to a position at which it does not insert. -/
theorem Awake.pushes (hw : s.Awake h) {t : ThreadId} {stack : List CallPc}
    (keep : ∀ x, .push x ∈ stack → .push x ∈ s.calls t) :
    ∀ t' x, .push x ∈ (s.setCalls t stack).calls t' → s.el.isInLoopThread t' = false := by
  intro t' x hx
  cases (mem_setCalls t t' stack _).mp hx with
  | inl hself =>
    rw [hself.1]
    exact hw.push t x (keep x hself.2)
  | inr hother => exact hw.push t' x hother.2

/-- A call moves on without inserting. -/
theorem Awake.move (hw : s.Awake h) {t : ThreadId} {stack : List CallPc}
    (keep : ∀ x, .push x ∈ stack → .push x ∈ s.calls t) : (s.setCalls t stack).Awake h :=
  ⟨hw.pushes keep, hw.inserting, hw.awake⟩

/-- `loop()` moves on. -/
theorem Awake.loop (hw : s.Awake h) {pc : LoopPc} {el : EventLoop} {executed : List Execution}
    (tid : el.elTid = s.el.elTid)
    (awake : el.elTaskFuncs ≠ [] →
      0 < el.evfd ∨ (∃ t, h.inserting t = true) ∨ pc = .deal ∨ pc = .swap) :
    Awake ⟨el, pc, s.calls, executed⟩ h := by
  have hsame : ∀ t, el.isInLoopThread t = s.el.isInLoopThread t := by
    intro t
    unfold EventLoop.isInLoopThread
    rw [tid]
  constructor
  · intro t x hx
    exact (hsame t).trans (hw.push t x hx)
  · intro t ht
    exact (hsame t).trans (hw.inserting t ht)
  · exact awake

/-- Outside the two statements before the swap, the loop is awake or will be woken. -/
theorem Awake.outside (hw : s.Awake h) (deal : s.pc ≠ .deal) (swap : s.pc ≠ .swap)
    (list : s.el.elTaskFuncs ≠ []) : 0 < s.el.evfd ∨ ∃ t, h.inserting t = true := by
  cases hw.awake list with
  | inl hevfd => exact Or.inl hevfd
  | inr hlater =>
    cases hlater with
    | inl hinserting => exact Or.inr hinserting
    | inr hat =>
      cases hat with
      | inl hdeal => exact absurd hdeal deal
      | inr hswap => exact absurd hswap swap

/-- Who inserts is noted. -/
theorem inserting_insert (t : ThreadId) (x : Task) : (h.insert t x).inserting t = true := by
  show Function.update h.inserting t true t = true
  exact Function.update_self t true h.inserting

/-- The thread that constructed the loop has inserted nothing when its call returns. -/
theorem Awake.ret (hw : s.Awake h) {t : ThreadId} (own : s.el.isInLoopThread t = true) :
    (∃ t', h.inserting t' = true) → ∃ t', (h.ret runner t).inserting t' = true := by
  intro hex
  refine exists_update_of_keeps (f := id) hex ?_
  intro ht
  rw [hw.inserting t ht] at own
  cases own

/-- Every step. -/
theorem Awake.step (hw : s.Awake h) (hstep : Step runner s h a s' h') : s'.Awake h' := by
  cases hstep with
  | addTask t name | callQuit t => exact hw.move (by simp)
  | inline t x rest top own =>
    exact ⟨hw.pushes (push_mem_of_top top (by simp)), hw.inserting, hw.awake⟩
  | lock t x rest top foreign =>
    refine ⟨?_, hw.inserting, hw.awake⟩
    intro t' y hy
    cases (mem_setCalls t t' _ _).mp hy with
    | inl hself =>
      rw [hself.1]
      exact foreign
    | inr hother => exact hw.push t' y hother.2
  | inlined t x rest top => exact hw.move (push_mem_of_top top (by simp))
  | push t x rest top =>
    have hforeign : s.el.isInLoopThread t = false := by
      apply hw.push t x
      rw [top]
      exact List.mem_cons_self
    refine ⟨hw.pushes (push_mem_of_top top (by simp)), ?_, ?_⟩
    · intro t' ht'
      cases of_update_true ht' with
      | inl hself =>
        rw [hself]
        exact hforeign
      | inr hbefore => exact hw.inserting t' hbefore
    · intro _
      exact Or.inr (Or.inl ⟨t, inserting_insert t x⟩)
  | quit t rest top =>
    exact ⟨hw.pushes (push_mem_of_top top (by simp)), hw.inserting, hw.awake⟩
  | toWake t c rest top => exact hw.move (push_mem_of_top top (by simp))
  | ret t c rest top own =>
    refine ⟨hw.pushes (push_mem_of_top top (by simp)), ?_, ?_⟩
    · intro t' ht'
      exact hw.inserting t' (of_update_false ht').2
    · intro hlist
      exact (hw.awake hlist).imp id (Or.imp (hw.ret own) id)
  | wake t rest top =>
    refine ⟨hw.pushes (push_mem_of_top top (by simp)), ?_, ?_⟩
    · intro t' ht'
      exact hw.inserting t' (of_update_false ht').2
    · intro _
      exact Or.inl (Nat.succ_pos s.el.evfd)
  | start ready at_ | done ready at_ | wait ready at_ | finish ready at_
  | task ready x rest at_ =>
    refine hw.loop rfl ?_
    intro hlist
    exact (hw.outside (by rw [at_]; simp) (by rw [at_]; simp) hlist).imp id Or.inl
  | report ready at_ readable =>
    refine hw.loop rfl ?_
    intro _
    exact Or.inl readable
  | timeout ready at_ | readEvfd ready at_ =>
    refine hw.loop rfl ?_
    intro _
    exact Or.inr (Or.inr (Or.inl rfl))
  | deal ready at_ =>
    refine hw.loop rfl ?_
    intro _
    exact Or.inr (Or.inr (Or.inr rfl))
  | swap ready at_ =>
    refine hw.loop rfl ?_
    intro hlist
    exact absurd rfl hlist

/-- Before the first step. -/
theorem awake_fresh (ctor : ThreadId) : (LoopSystem.init ctor).Awake .init := by
  constructor
  · intro t x hx
    cases hx
  · intro t ht
    cases ht
  · intro hlist
    exact absurd rfl hlist

/-- In every reached state, the insertions are placed. -/
theorem placed_of_reach {p : LoopSystem × LoopHistory}
    (hreach : Reach (noted runner) (fresh ctor) p) : p.1.Placed p.2 := by
  induction hreach with
  | refl => rfl
  | tail a hs _ hstep ih => exact ih.step (confined_of_reach hs.forget) (step_inversion hstep)

/-- In every reached state, the loop is awake. -/
theorem awake_of_reach {p : LoopSystem × LoopHistory}
    (hreach : Reach (noted runner) (fresh ctor) p) : p.1.Awake p.2 := by
  apply hreach.invariant (P := fun p ↦ p.1.Awake p.2)
  · exact awake_fresh ctor
  · intro p a p' hp _ hstep
    exact hp.step (step_inversion hstep)

/-- No queued task is lost, and the loop does not sleep on one. -/
structure KeepsTasks (s : LoopSystem) (h : LoopHistory) : Prop where
  placed : s.Placed h
  /-- When `epoll_wait` blocks while the list holds a task, a thread is between its insertion
  and its `evfd_wakeup()`. -/
  asleep : s.pc = .poll → s.el.evfd = 0 → s.el.elTaskFuncs ≠ [] → ∃ t, h.inserting t = true

end LoopSystem

/-- In every run of a loop that is constructed by one thread and run by one thread, no queued
task is lost and the loop does not sleep on one. -/
theorem no_queued_task_lost {ctor runner : ThreadId} {s : LoopSystem} {h : LoopHistory}
    (hreach : Reach (LoopSystem.noted runner) (LoopSystem.fresh ctor) (s, h)) :
    s.KeepsTasks h := by
  have hawake := LoopSystem.awake_of_reach hreach
  constructor
  · exact LoopSystem.placed_of_reach hreach
  · intro hpoll hevfd hlist
    cases hawake.outside (by rw [hpoll]; simp) (by rw [hpoll]; simp) hlist with
    | inl hreadable => exact absurd hevfd (Nat.ne_of_gt hreadable)
    | inr hinserting => exact hinserting

/-- Two threads queue tasks while the loop is in `epoll_wait`; the first wakes it, and it has
run both tasks and waits again when the second wakes it for nothing. -/
def wokenForNothing : List LoopAction :=
  [.loop false, .loop false, .addTask 2 0, .call 2, .addTask 3 0, .call 3, .call 2, .call 3,
    .call 2, .call 2, .loop true, .loop true, .loop false, .loop false, .loop false,
    .loop false, .loop false, .loop false, .call 3, .call 3]

/-- Both tasks have run by then, in the order of their insertion. -/
theorem both_tasks_run :
    ∃ p, run (LoopSystem.noted 1) (LoopSystem.fresh 0) wokenForNothing = some p ∧
      p.1.queuedRuns = [⟨2, 0⟩, ⟨3, 0⟩] ∧ p.1.KeepsTasks p.2 := by
  obtain ⟨p, hrun, hruns⟩ : ∃ p,
      run (LoopSystem.noted 1) (LoopSystem.fresh 0) wokenForNothing = some p ∧
        p.1.queuedRuns = [⟨2, 0⟩, ⟨3, 0⟩] := ⟨_, rfl, by decide⟩
  exact ⟨p, hrun, hruns, no_queued_task_lost (reach_of_run hrun)⟩

end ConcurrentServer.Net
