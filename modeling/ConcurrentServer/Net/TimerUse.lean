import ConcurrentServer.Net.ConnTimers
import ConcurrentServer.Net.TimerOps

/-!
# What the server does with its timer

`src/net/tcp_server.h:43–55`. Seen from the timer, a server calls `run_after`, and `cancel` with −1
or an id that `run_after` has returned; the rest is done by the timer's own threads.
-/

namespace ConcurrentServer.Net
open ConcurrentServer.Base

namespace Server

variable {s t : Server} {a : ServerAction}

/-- The timer does nothing, or one operation that a server uses or one move. -/
def TimerDoes (s t : Server) : Prop :=
  t.tsTimer.forget = s.tsTimer.forget ∨
    ∃ op : TimerOp Nat, s.tsTimer.forget.Uses op ∧
      s.tsTimer.forget.step op = some t.tsTimer.forget

/-- A statement of `add_new_tcp_conn` calls `run_after` at most. -/
theorem timerDoes_addStmt {c : Nat} {p : AddPc} (few : s.tsTimer.tmCount < 2 ^ 32 - 1)
    (timer : t.tsTimer = (s.addStmt c p).tsTimer) : TimerDoes s t := by
  cases p with
  | runAfter =>
    refine Or.inr ⟨.runAfter c, few, ?_⟩
    rw [timer]
    exact congrArg some (TimerState.forget_runAfter c).symm
  | setTimerId id => exact Or.inl (by rw [timer]; rfl)
  | emplaceBack => exact Or.inl (by rw [timer]; rfl)

/-- The stage of a node, without the place in its callback. -/
theorem stageOf_forget {k : Nat} {tn : TimerNode Nat ClosePc} (node : s.tsTimer.nodes k = some tn) :
    s.tsTimer.forget.nodes k = some tn.forget := by
  change (s.tsTimer.nodes k).map TimerNode.forget = _
  rw [node, Option.map_some]

/-- A node moves on. -/
theorem timerDoes_of_advance {k : Nat} {tn : TimerNode Nat ClosePc}
    {before after : TimerStage ClosePc} (op : TimerOp Nat) (uses : s.tsTimer.forget.Uses op)
    (node : s.tsTimer.nodes k = some tn) (at_ : tn.stage = before)
    (step : s.tsTimer.forget.step op = s.tsTimer.forget.advance k before.forget after.forget) :
    TimerDoes s (s.setStage k after) := by
  have hat : tn.forget.stage = before.forget := congrArg TimerStage.forget at_
  refine Or.inr ⟨op, uses, ?_⟩
  rw [step, TimerState.advance_eq_some (stageOf_forget node) hat]
  exact congrArg some (TimerState.forget_setStage k after).symm

/-- Before a callback begins, a worker is free. -/
theorem free_of_begin {k : Nat} (h : s.step (.begin k) = some t) :
    s.tsTimer.busyWorkers < defaultTimerThreadPoolSize := by
  simp only [step, stepLive, Option.ite_none_left_eq_some] at h
  obtain ⟨-, h⟩ := h
  split at h
  · simp only [timerStep, Option.ite_none_right_eq_some] at h
    exact h.1.2
  · cases h

/-- A step of the timer's threads is one of the timer. -/
theorem timerDoes_timerMove {k : Nat} {tn : TimerNode Nat ClosePc} {stage : TimerStage ClosePc}
    (hstep : s.step a = some t) (node : s.tsTimer.nodes k = some tn)
    (move : TimerMove s k tn a stage) : TimerDoes s (s.setStage k stage) := by
  have hnode := stageOf_forget node
  cases move with
  | expire at_ => exact timerDoes_of_advance (.expire k) trivial node at_ rfl
  | pass at_ key =>
    refine timerDoes_of_advance (.check k) trivial node at_ ?_
    have hkey : s.tsTimer.forget.tmIdStateMap tn.forget.tnId = true := key
    simp only [TimerState.step, hnode, hkey, if_true]
    rfl
  | drop at_ key =>
    refine timerDoes_of_advance (.check k) trivial node at_ ?_
    have hkey : s.tsTimer.forget.tmIdStateMap tn.forget.tnId = false := key
    simp only [TimerState.step, hnode, hkey, Bool.false_eq_true, if_false]
    rfl
  | post at_ => exact timerDoes_of_advance (.post k) trivial node at_ rfl
  | begin at_ =>
    refine timerDoes_of_advance (.begin k) trivial node at_ ?_
    have hfree := free_of_begin hstep
    rw [← TimerState.busyWorkers_forget] at hfree
    exact if_pos hfree
  | done at_ => exact timerDoes_of_advance (.finish k) trivial node at_ rfl

/-- A connection's id is one that its node carries without the place in its callback. -/
theorem uses_cancel (ids : s.TimerIds) {l c : Nat} {id : Int} {batch : List (Int × Mask)}
    (at_ : s.io l = .message c (.cancel id) batch) : s.tsTimer.forget.Uses (.cancel 0 id) := by
  rcases ids.cancel l c id batch at_ with hnone | ⟨k, tn, hk, -, hid⟩
  · exact Or.inl hnone
  · exact Or.inr ⟨k, tn.forget, stageOf_forget hk, hid⟩

/-- Whatever a step of the server is, its timer does nothing, or one operation or move. -/
theorem timerDoes_of_step (ids : s.TimerIds) (few : s.tsTimer.tmCount < 2 ^ 32 - 1)
    (h : s.step a = some t) : TimerDoes s t := by
  cases step_inversion h with
  | acceptAdd ok c p at_ => exact timerDoes_addStmt few rfl
  | messageAdd l c p batch at_ => exact timerDoes_addStmt few rfl
  | cancel l c id batch at_ => exact Or.inr ⟨.cancel 0 id, uses_cancel ids at_, rfl⟩
  | close l c p batch at_ body => exact Or.inl (by rw [setIo_tsTimer, closeStmt_tsTimer])
  | userCloseStmt l c d p batch at_ body => exact Or.inl (by rw [setIo_tsTimer, closeStmt_tsTimer])
  | timer k tn a stage node move => exact timerDoes_timerMove h node move
  | timerClose k tn p node at_ body =>
    refine Or.inl ?_
    have hsame : s.tsTimer.forget.setStage k tn.forget.stage = s.tsTimer.forget :=
      TimerState.setStage_eq_self (stageOf_forget node)
    have hstage : tn.forget.stage = .running () := by
      change tn.stage.forget = _
      rw [at_]
      rfl
    rw [hstage] at hsame
    rw [setStage_tsTimer, closeStmt_tsTimer, TimerState.forget_setStage]
    exact hsame
  | _ => exact Or.inl rfl

/-- Fewer than 2³² − 1 timers have been made. -/
def FewTimers (s : Server) (_ : ServerAction) : Prop := s.tsTimer.tmCount < 2 ^ 32 - 1

instance (s : Server) (a : ServerAction) : Decidable (FewTimers s a) :=
  inferInstanceAs (Decidable (_ < _))

/-- The ids in a server that makes fewer than 2³² − 1 timers. -/
theorem timerIds_of_reach {n : Nat} {elEvfd : Nat → Int}
    (h : ReachBy Server.step FewTimers (init n elEvfd) s) : s.TimerIds := by
  apply h.invariant (timerIds_init n elEvfd)
  intro s a t hs few hstep
  exact hs.step (step_inversion hstep) few

end Server

/-- In every run of a server that makes fewer than 2³² − 1 timers, the timer is in a state that it
reaches by itself when it is used in that way: nothing but calls of `run_after`, calls of `cancel`
with −1 or an id that `run_after` has returned, and the moves of its own threads have happened to
it. -/
theorem server_uses_timer {n : Nat} {elEvfd : Nat → Int} {s : Server}
    (h : ReachBy Server.step Server.FewTimers (Server.init n elEvfd) s) :
    ReachBy TimerState.step TimerState.Uses TimerState.init s.tsTimer.forget := by
  refine h.refine (fun s : Server ↦ s.tsTimer.forget) ?_
  intro s a t hs few hstep
  exact Server.timerDoes_of_step (Server.timerIds_of_reach hs) few hstep

/-- A connection handles a message, and its second timer begins to close it. -/
def messageThenTimeout : List ServerAction :=
  .accept 7 :: List.replicate 5 (.acceptor true) ++
    [.wait 0 [(7, EPOLLIN)], .lookup 0, .readData 0] ++ List.replicate 5 (.message 0) ++
      [.expire 1, .check 1, .post 1, .begin 1]

/-- By then the timer has been used for two nodes and a cancellation. -/
theorem timer_used_for_message :
    ∃ s, run Server.step (Server.init 1 fun _ ↦ 3) messageThenTimeout = some s ∧
      s.tsTimer.tmCount = 2 ∧
        ReachBy TimerState.step TimerState.Uses TimerState.init s.tsTimer.forget := by
  have hrun : (run Server.step (Server.init 1 fun _ ↦ 3) messageThenTimeout).isSome := by
    decide +kernel
  have hcount : ∀ t ∈ run Server.step (Server.init 1 fun _ ↦ 3) messageThenTimeout,
      t.tsTimer.tmCount = 2 := by
    decide +kernel
  obtain ⟨s, hs⟩ := Option.isSome_iff_exists.mp hrun
  exact ⟨s, hs, hcount s hs, server_uses_timer (reachBy_of_run hs (by decide +kernel))⟩

end ConcurrentServer.Net
