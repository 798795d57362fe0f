import ConcurrentServer.Net.EventLoop

/-!
# Steps of the event loop

What a step of `LoopSystem.step` can do, one constructor for each statement, with notes of what
the steps so far have done. A call notes what it has stored until it returns; `evfd_wakeup()` is
the last statement of a call that makes it.
-/

namespace ConcurrentServer.Net
open ConcurrentServer.Base

/-- What the steps so far have done. -/
structure LoopHistory where
  /-- The tasks inserted into `el_task_funcs`, in order. -/
  inserted : List Task
  /-- The threads between the insertion of their task and the return of `add_task`. -/
  inserting : ThreadId → Bool
  /-- The threads between `el_quit = true` and the return of `quit`. -/
  quitting : ThreadId → Bool
  /-- A `quit` has returned to a thread that does not run the loop. -/
  quitReturned : Bool

namespace LoopHistory

/-- Nothing has been done. -/
def init : LoopHistory := ⟨[], fun _ ↦ false, fun _ ↦ false, false⟩

/-- Thread `t` has inserted `x`. -/
def insert (h : LoopHistory) (t : ThreadId) (x : Task) : LoopHistory :=
  { h with inserted := h.inserted ++ [x], inserting := Function.update h.inserting t true }

/-- Thread `t` has set `el_quit`. -/
def quit (h : LoopHistory) (t : ThreadId) : LoopHistory :=
  { h with quitting := Function.update h.quitting t true }

/-- The innermost call of thread `t` returns. -/
def ret (runner : ThreadId) (h : LoopHistory) (t : ThreadId) : LoopHistory :=
  { h with
    inserting := Function.update h.inserting t false
    quitting := Function.update h.quitting t false
    quitReturned := h.quitReturned || (h.quitting t && t != runner) }

/-- The notes of one step. -/
def note (runner : ThreadId) (s : LoopSystem) (a : LoopAction) (s' : LoopSystem)
    (h : LoopHistory) : LoopHistory :=
  match a with
  | .call t =>
    match s.calls t with
    | .push x :: _ => h.insert t x
    | .quit :: _ => h.quit t
    | _ => if (s'.calls t).length < (s.calls t).length then h.ret runner t else h
  | .addTask _ _ | .quit _ | .loop _ => h

end LoopHistory

namespace LoopSystem

variable {ctor runner : ThreadId} {s s' : LoopSystem} {h h' : LoopHistory} {a : LoopAction}

/-- The loop of `EventLoop::loop` and its callers, with notes. -/
abbrev noted (runner : ThreadId) :
    LoopSystem × LoopHistory → LoopAction → Option (LoopSystem × LoopHistory) :=
  withHistory (LoopSystem.step runner) (LoopHistory.note runner)

/-- A fresh loop with nothing noted. -/
abbrev fresh (ctor : ThreadId) : LoopSystem × LoopHistory := (LoopSystem.init ctor, .init)

/-- The notes restrict nothing: what is reached with them is what is reached. -/
theorem reach_noted_iff :
    (∃ h, Reach (noted runner) (fresh ctor) (s, h)) ↔
      Reach (LoopSystem.step runner) (LoopSystem.init ctor) s := by
  constructor
  · intro hnoted
    obtain ⟨h, hreach⟩ := hnoted
    exact ReachBy.forget hreach
  · intro hreach
    exact hreach.noted LoopHistory.init

/-- What a step does. -/
inductive Step (runner : ThreadId) (s : LoopSystem) (h : LoopHistory) :
    LoopAction → LoopSystem → LoopHistory → Prop
  /-- `add_task` is called. -/
  | addTask (t : ThreadId) (name : Nat) :
      Step runner s h (.addTask t name) (s.setCalls t (.entered ⟨t, name⟩ :: s.calls t)) h
  /-- `quit` is called. -/
  | callQuit (t : ThreadId) : Step runner s h (.quit t) (s.setCalls t (.quit :: s.calls t)) h
  /-- The caller constructed the loop, and the task begins. -/
  | inline (t : ThreadId) (x : Task) (rest : List CallPc) (top : s.calls t = .entered x :: rest)
      (own : s.el.isInLoopThread t = true) :
      Step runner s h (.call t)
        { s.setCalls t (.inline x :: rest) with executed := s.executed ++ [⟨x, t⟩] } h
  /-- `el_mutex` is taken. -/
  | lock (t : ThreadId) (x : Task) (rest : List CallPc) (top : s.calls t = .entered x :: rest)
      (foreign : s.el.isInLoopThread t = false) :
      Step runner s h (.call t) (s.setCalls t (.push x :: rest)) h
  /-- The inline task ends. -/
  | inlined (t : ThreadId) (x : Task) (rest : List CallPc) (top : s.calls t = .inline x :: rest) :
      Step runner s h (.call t) (s.setCalls t (.tail :: rest)) h
  /-- The task is inserted. -/
  | push (t : ThreadId) (x : Task) (rest : List CallPc) (top : s.calls t = .push x :: rest) :
      Step runner s h (.call t)
        { s.setCalls t (.tail :: rest) with
          el := { s.el with elTaskFuncs := s.el.elTaskFuncs ++ [x] } } (h.insert t x)
  /-- `el_quit` is set. -/
  | quit (t : ThreadId) (rest : List CallPc) (top : s.calls t = .quit :: rest) :
      Step runner s h (.call t)
        { s.setCalls t (.quitTail :: rest) with el := { s.el with elQuit := true } } (h.quit t)
  /-- The call goes on to wake the loop. -/
  | toWake (t : ThreadId) (c : CallPc) (rest : List CallPc) (top : s.calls t = c :: rest) :
      Step runner s h (.call t) (s.setCalls t (.wake :: rest)) h
  /-- The call of the thread that constructed the loop returns. -/
  | ret (t : ThreadId) (c : CallPc) (rest : List CallPc) (top : s.calls t = c :: rest)
      (own : s.el.isInLoopThread t = true) :
      Step runner s h (.call t) (s.setCalls t rest) (h.ret runner t)
  /-- The call wakes the loop and returns. -/
  | wake (t : ThreadId) (rest : List CallPc) (top : s.calls t = .wake :: rest) :
      Step runner s h (.call t) { s.setCalls t rest with el := s.el.evfdWakeup } (h.ret runner t)
  /-- `loop()` is called. -/
  | start (ready : Bool) (at_ : s.pc = .before) :
      Step runner s h (.loop ready) { s with pc := .test, el := { s.el with elQuit := false } } h
  /-- `loop()` returns. -/
  | done (ready : Bool) (at_ : s.pc = .test) (quit : s.el.elQuit = true) :
      Step runner s h (.loop ready) { s with pc := .done } h
  /-- `epoll_wait` is called. -/
  | wait (ready : Bool) (at_ : s.pc = .test) (run : s.el.elQuit = false) :
      Step runner s h (.loop ready) { s with pc := .poll } h
  /-- `epoll_wait` reports the eventfd. -/
  | report (ready : Bool) (at_ : s.pc = .poll) (readable : 0 < s.el.evfd) :
      Step runner s h (.loop ready) { s with pc := .readEvfd } h
  /-- `epoll_wait` returns without the eventfd. -/
  | timeout (ready : Bool) (at_ : s.pc = .poll) :
      Step runner s h (.loop ready) { s with pc := .deal } h
  /-- The eventfd is read. -/
  | readEvfd (ready : Bool) (at_ : s.pc = .readEvfd) :
      Step runner s h (.loop ready) { s with pc := .deal, el := s.el.evfdRead } h
  /-- `el_dealing_task_funcs` is set. -/
  | deal (ready : Bool) (at_ : s.pc = .deal) :
      Step runner s h (.loop ready)
        { s with pc := .swap, el := { s.el with elDealingTaskFuncs := true } } h
  /-- The list is swapped out. -/
  | swap (ready : Bool) (at_ : s.pc = .swap) :
      Step runner s h (.loop ready)
        { s with pc := .batch s.el.elTaskFuncs, el := { s.el with elTaskFuncs := [] } } h
  /-- The batch is done. -/
  | finish (ready : Bool) (at_ : s.pc = .batch []) :
      Step runner s h (.loop ready)
        { s with pc := .test, el := { s.el with elDealingTaskFuncs := false } } h
  /-- A task of the batch runs. -/
  | task (ready : Bool) (x : Task) (rest : List Task) (at_ : s.pc = .batch (x :: rest)) :
      Step runner s h (.loop ready)
        { s with pc := .batch rest, executed := s.executed ++ [⟨x, runner⟩] } h

/-- A statement of a call that stores nothing and does not return is not noted. -/
theorem Step.stay {t : ThreadId} {c d : CallPc} {rest : List CallPc}
    (hmove : Step runner s h (.call t) s' h) (top : s.calls t = c :: rest)
    (push : ∀ x, c ≠ .push x) (quit : c ≠ .quit) (moved : s'.calls t = d :: rest) :
    Step runner s h (.call t) s' (LoopHistory.note runner s (.call t) s' h) := by
  have hnote : LoopHistory.note runner s (.call t) s' h = h := by
    dsimp only [LoopHistory.note]
    rw [top, moved]
    cases c with
    | push x => exact absurd rfl (push x)
    | quit => exact absurd rfl quit
    | _ => exact if_neg (Nat.lt_irrefl _)
  rw [hnote]
  exact hmove

/-- A call that stores nothing and returns is noted. -/
theorem Step.leave {t : ThreadId} {c : CallPc} {rest : List CallPc}
    (hmove : Step runner s h (.call t) s' (h.ret runner t)) (top : s.calls t = c :: rest)
    (push : ∀ x, c ≠ .push x) (quit : c ≠ .quit) (moved : s'.calls t = rest) :
    Step runner s h (.call t) s' (LoopHistory.note runner s (.call t) s' h) := by
  have hnote : LoopHistory.note runner s (.call t) s' h = h.ret runner t := by
    dsimp only [LoopHistory.note]
    rw [top, moved]
    cases c with
    | push x => exact absurd rfl (push x)
    | quit => exact absurd rfl quit
    | _ => exact if_pos (Nat.lt_succ_self _)
  rw [hnote]
  exact hmove

/-- The stack of the thread that moves. -/
@[simp] theorem calls_setCalls_self (s : LoopSystem) (t : ThreadId) (stack : List CallPc) :
    (s.setCalls t stack).calls t = stack := by
  show Function.update s.calls t stack t = stack
  exact Function.update_self t stack s.calls

/-- The statements of a call. -/
theorem callStep_inversion {t : ThreadId} (hstep : s.callStep t = some s') :
    Step runner s h (.call t) s' (LoopHistory.note runner s (.call t) s' h) := by
  unfold callStep at hstep
  split at hstep
  · cases hstep
  · next x rest top =>
    split at hstep
    · next own =>
      cases hstep
      apply (Step.inline t x rest top own).stay top (by simp) (by simp)
      exact calls_setCalls_self s t _
    · next own =>
      cases hstep
      apply (Step.lock t x rest top (Bool.eq_false_iff.mpr own)).stay top (by simp) (by simp)
      exact calls_setCalls_self s t _
  · next x rest top =>
    cases hstep
    apply (Step.inlined t x rest top).stay top (by simp) (by simp)
    exact calls_setCalls_self s t _
  · next x rest top =>
    cases hstep
    dsimp only [LoopHistory.note]
    rw [top]
    exact .push t x rest top
  · next rest top =>
    split at hstep
    · cases hstep
      apply (Step.toWake t _ rest top).stay top (by simp) (by simp)
      exact calls_setCalls_self s t _
    · next stay =>
      have own : s.el.isInLoopThread t = true := by
        simp only [Bool.or_eq_true, Bool.not_eq_true', not_or, Bool.not_eq_false] at stay
        exact stay.1
      cases hstep
      apply (Step.ret t _ rest top own).leave top (by simp) (by simp)
      exact calls_setCalls_self s t _
  · next rest top =>
    cases hstep
    dsimp only [LoopHistory.note]
    rw [top]
    exact .quit t rest top
  · next rest top =>
    split at hstep
    · cases hstep
      apply (Step.toWake t _ rest top).stay top (by simp) (by simp)
      exact calls_setCalls_self s t _
    · next stay =>
      have own : s.el.isInLoopThread t = true := by simpa using stay
      cases hstep
      apply (Step.ret t _ rest top own).leave top (by simp) (by simp)
      exact calls_setCalls_self s t _
  · next rest top =>
    cases hstep
    apply (Step.wake t rest top).leave top (by simp) (by simp)
    exact calls_setCalls_self s t _

/-- The statements of `loop()`. -/
theorem loopStep_inversion {ready : Bool} (hstep : s.loopStep runner ready = some s') :
    Step runner s h (.loop ready) s' h := by
  unfold loopStep at hstep
  split at hstep
  · next at_ =>
    cases hstep
    exact .start ready at_
  · next at_ =>
    cases hstep
    split
    · next quit => exact .done ready at_ quit
    · next run => exact .wait ready at_ (Bool.eq_false_iff.mpr run)
  · next at_ =>
    split at hstep
    · split at hstep
      · next readable =>
        cases hstep
        exact .report ready at_ readable
      · cases hstep
    · cases hstep
      exact .timeout ready at_
  · next at_ =>
    cases hstep
    exact .readEvfd ready at_
  · next at_ =>
    cases hstep
    exact .deal ready at_
  · next at_ =>
    cases hstep
    exact .swap ready at_
  · next at_ =>
    cases hstep
    exact .finish ready at_
  · next x rest at_ =>
    cases hstep
    exact .task ready x rest at_
  · cases hstep

/-- Every step with its notes is one of these. -/
theorem step_inversion {p p' : LoopSystem × LoopHistory} (hstep : noted runner p a = some p') :
    Step runner p.1 p.2 a p'.1 p'.2 := by
  obtain ⟨hmove, hnote⟩ := withHistory_eq_some.mp hstep
  rw [hnote]
  cases a with
  | addTask t name =>
    simp only [LoopSystem.step] at hmove
    split at hmove
    · rw [← Option.some.inj hmove]
      exact .addTask t name
    · cases hmove
  | quit t =>
    simp only [LoopSystem.step] at hmove
    split at hmove
    · rw [← Option.some.inj hmove]
      exact .callQuit t
    · cases hmove
  | call t => exact callStep_inversion hmove
  | loop ready =>
    simp only [LoopSystem.step] at hmove
    split at hmove
    · exact loopStep_inversion hmove
    · cases hmove

end LoopSystem

end ConcurrentServer.Net
