import ConcurrentServer.Net.TimedStep
import ConcurrentServer.Net.TimerUse

/-!
# The server over its timer's statements is the server

Every step of `TimedServer.step` is a step of `Server.step`, or none: `run_after` happens when it
gets its id, `cancel` when it has dealt with the table, and all else when it is done. So whatever
holds of every state of the server whose timer works in one piece holds of the server as it is.
-/

namespace ConcurrentServer.Net
open ConcurrentServer.Base
open ConcurrentServer.Timer (TimerSystem TimerAction TimerView Shows)

namespace Server

variable {s : Server} {k : Nat} {tn : TimerNode Nat ClosePc} {a : ServerAction}
  {stage : TimerStage ClosePc}

/-- A node moves on, when a worker is free for it. -/
theorem step_of_timerMove (alive : s.aborted = false) (node : s.tsTimer.nodes k = some tn)
    (move : TimerMove s k tn a stage)
    (free : tn.stage = .posted → s.tsTimer.busyWorkers < defaultTimerThreadPoolSize) :
    s.step a = some (s.setStage k stage) := by
  rw [step_eq_stepLive alive]
  cases move with
  | expire at_ => simp [stepLive, node, timerStep, at_]
  | pass at_ key => simp [stepLive, node, timerStep, at_, key]
  | drop at_ key => simp [stepLive, node, timerStep, at_, key]
  | post at_ => simp [stepLive, node, timerStep, at_]
  | begin at_ => simp [stepLive, node, timerStep, at_, free at_]
  | done at_ => simp [stepLive, node, timerStep, at_]

/-- A callback executes a statement of `do_close`. -/
theorem step_timerClose {p : ClosePc} (alive : s.aborted = false)
    (node : s.tsTimer.nodes k = some tn) (at_ : tn.stage = .running p) (body : p ≠ .ret) :
    s.step (.timerClose k) =
      some ((s.closeStmt tn.job p).setStage k (.running (s.closeNext tn.job p))) := by
  rw [step_eq_stepLive alive]
  simp [stepLive, node, timerStep, at_, body]

end Server

namespace TimedServer

variable {s t : TimedServer} {b : TimedAction} {ops ops' : List (TimerOp Nat)}
  {a a' : TimerState Nat Unit} {timer : TimerSystem}

/-- The server that can be seen makes one step or none, and can be seen again. -/
def Matches (s : TimedServer) (a : TimerState Nat Unit) (b : TimedAction) (t : TimedServer) :
    Prop :=
  ∃ (x : Option ServerAction) (ops : List (TimerOp Nat)) (a' : TimerState Nat Unit),
    run Server.step (s.seen a) x.toList = some (t.seen a') ∧
      x.bind ServerAction.plain? = b.plain? ∧ Shows t.tsTimer.view ops a'

/-- Nothing can be seen. -/
theorem matches_silent (other : b.plain? = none) (shows : Shows t.tsTimer.view ops a)
    (same : t.seen a = s.seen a) : s.Matches a b t :=
  ⟨none, ops, a, congrArg some same.symm, other.symm, shows⟩

/-- One step can be seen. -/
theorem matches_step {x : ServerAction} (plain : x.plain? = b.plain?)
    (shows : Shows t.tsTimer.view ops a') (step : (s.seen a).step x = some (t.seen a')) :
    s.Matches a b t :=
  ⟨some x, ops, a', Option.bind_eq_some_iff.mpr ⟨_, step, rfl⟩, plain, shows⟩

/-! ### Statements of the server's threads -/

/-- A statement of a thread of the server. -/
theorem matches_server {x : ServerAction} {th : ServerThread} {server : Server}
    (shows : Shows s.tsTimer.view ops a) (by_ : x.by? = some th) (out : s.inside th = none)
    (own : s.server.request th = none) (step : s.server.step x = some server) :
    s.Matches a (.server x) { s with server := server } := by
  refine matches_step (x := x) rfl shows ?_
  unfold seen
  rw [Server.step_resumed by_ own (results_eq_none out), step]
  rfl

/-- The effects of calls are read off the view. -/
theorem effect_eq (view : t.tsTimer.view = s.tsTimer.view) : t.effect = s.effect := by
  funext call
  cases call with
  | runAfter k => exact congrFun (congrArg TimerView.ids view) k
  | cancel c => exact congrFun (congrArg TimerView.overs view) c

/-- A thread enters a call that has no effect yet. -/
theorem results_enter {th : ServerThread} {call : TimerCall} (out : s.inside th = none)
    (inside : t.inside = Function.update s.inside th (some call))
    (view : t.tsTimer.view = s.tsTimer.view) (fresh : s.effect call = none) :
    t.results = s.results := by
  funext th'
  unfold results
  rw [inside, effect_eq view]
  by_cases hth : th' = th
  · rw [hth, Function.update_self, out]
    exact fresh
  · rw [Function.update_of_ne hth]

/-- A thread makes a call of `run_after`. -/
theorem matches_runAfter {th : ServerThread} {c : Nat} (shows : Shows s.tsTimer.view ops a)
    (out : s.inside th = none)
    (step : s.tsTimer.step (.run s.runs (.runAfter s.tsTcpConnTimoutMs false)) = some timer) :
    s.Matches a (.call th) ((s.setTimer timer).enterRunAfter th c) := by
  obtain ⟨idle, htimer⟩ := TimerSystem.setCall_of_run step
  have hview : timer.view = s.tsTimer.view := by
    rw [htimer]
    exact TimerSystem.view_setCall (by rw [idle]; rfl) (by rw [idle]; rfl) (by rw [idle]; rfl)
  have hfresh : s.tsTimer.view.ids s.runs = none := by
    change (s.tsTimer.calls s.runs).id? = none
    rw [idle]
    rfl
  refine matches_silent rfl (show Shows timer.view ops a from hview ▸ shows) ?_
  have hresults : ((s.setTimer timer).enterRunAfter th c).results = s.results :=
    results_enter out rfl hview hfresh
  have hattach : a.attach (Function.update s.tcpConn s.runs c) s.timeouts =
      a.attach s.tcpConn s.timeouts := by
    refine TimerState.attach_congr fun j tn node ↦ Function.update_of_ne ?_ _ _
    intro hjob
    have hid := shows.call j tn node
    rw [hjob, hfresh] at hid
    cases hid
  unfold seen
  rw [hresults]
  exact congrArg (s.server.resumed s.results) hattach

/-- A thread makes a call of `cancel`. -/
theorem matches_cancel {th : ServerThread} {id : Int} (shows : Shows s.tsTimer.view ops a)
    (out : s.inside th = none) (step : s.tsTimer.step (.cancel s.cancels id) = some timer) :
    s.Matches a (.call th) ((s.setTimer timer).enterCancel th) := by
  obtain ⟨idle, htimer⟩ := TimerSystem.setCancel_of_cancel step
  have hview : timer.view = s.tsTimer.view := by
    rw [htimer]
    exact TimerSystem.view_setCancel (by rw [idle]; rfl)
  have hfresh : s.tsTimer.view.overs s.cancels = none := by
    change (s.tsTimer.cancels s.cancels).over? = none
    rw [idle]
    rfl
  refine matches_silent rfl (show Shows timer.view ops a from hview ▸ shows) ?_
  have hresults : ((s.setTimer timer).enterCancel th).results = s.results :=
    results_enter out rfl hview hfresh
  unfold seen
  rw [hresults]
  rfl

/-- A call that has returned has had its effect. -/
theorem effect_of_result {call : TimerCall} {id : Int} (result : s.result call = some id) :
    s.effect call = some id := by
  cases call with
  | runAfter k =>
    simp only [TimedServer.result] at result
    split at result
    · next hpc =>
      change (s.tsTimer.calls k).id? = some id
      rw [hpc]
      exact result
    · cases result
  | cancel c =>
    simp only [TimedServer.result] at result
    split at result
    · next hpc =>
      change (s.tsTimer.cancels c).over? = some id
      rw [hpc]
      exact result
    · cases result

/-- A thread goes on after its call. -/
theorem matches_callEnd {th : ServerThread} {call : TimerCall} {id : Int}
    (shows : Shows s.tsTimer.view ops a) (at_ : s.inside th = some call)
    (result : s.result call = some id) : s.Matches a (.callEnd th) (s.leave th id) := by
  refine matches_silent rfl (show Shows s.tsTimer.view ops a from shows) ?_
  have hresult : s.results th = some id := by
    rw [results, at_]
    exact effect_of_result result
  have hresults : (s.leave th id).results = Function.update s.results th none := by
    funext th'
    unfold results
    by_cases hth : th' = th
    · rw [hth, Function.update_self, leave_inside, Function.update_self]
      rfl
    · rw [Function.update_of_ne hth, leave_inside, Function.update_of_ne hth]
      rfl
  unfold seen
  rw [hresults]
  exact Server.resumed_resume hresult

/-- A callback executes a statement of `do_close`. -/
theorem matches_timeout {w k : Nat} (alive : s.server.aborted = false)
    (shows : Shows s.tsTimer.view ops a) (at_ : s.callback w = some k)
    (body : s.timeouts k ≠ .ret) : s.Matches a (.timeout w) (s.closeStep k) := by
  obtain ⟨j, tn, node, rfl, hstage⟩ := shows.exists_node (running_of_callback at_)
  refine matches_step (x := .timerClose j) rfl shows ?_
  have hat : (tn.attach s.tcpConn s.timeouts).stage = .running (s.timeouts tn.job) := by
    simp [TimerNode.attach, hstage, TimerStage.attach]
  have hstep := Server.step_timerClose (s := s.seen a) alive (TimerState.nodes_attach node) hat body
  rw [hstep]
  have hattach : a.attach s.tcpConn (Function.update s.timeouts tn.job
      (s.server.closeNext (s.tcpConn tn.job) (s.timeouts tn.job))) =
        (a.attach s.tcpConn s.timeouts).setStage j
          (.running (s.server.closeNext (s.tcpConn tn.job) (s.timeouts tn.job))) :=
    TimerState.attach_update node
      (fun j' tn' node' hjob ↦ shows.single j' j tn' tn node' node hjob) hstage _
  have hseen : (s.closeStep tn.job).seen a =
      (s.server.closeStmt (s.tcpConn tn.job) (s.timeouts tn.job)).resumed s.results
        (a.attach s.tcpConn (Function.update s.timeouts tn.job
          (s.server.closeNext (s.tcpConn tn.job) (s.timeouts tn.job)))) := rfl
  rw [hseen, hattach, Server.resumed_closeStmt]
  unfold seen Server.resumed
  simp only [Server.withThreads_closeStmt, Server.withThreads_closeNext]
  rfl

/-! ### Statements of the timer -/

/-- A callback has moved on. -/
theorem matches_moved {j : Nat} {tn : TimerNode Nat Unit} {before after : TimerStage Unit}
    {x : ServerAction} (alive : s.server.aborted = false) (shows : Shows s.tsTimer.view ops a)
    (other : b.plain? = none) (hidden : x.plain? = none)
    (view : timer.view = s.tsTimer.view.moved tn.job before after) (node : a.nodes j = some tn)
    (at_ : tn.stage = before)
    (move : Server.TimerMove (s.seen a) j (tn.attach s.tcpConn s.timeouts) x
      (after.attach (s.timeouts tn.job)))
    (free : before = .posted → a.busyWorkers < defaultTimerThreadPoolSize) :
    s.Matches a b (s.setTimer timer) := by
  have hshows : Shows (s.tsTimer.view.moved tn.job before after) (ops ++ [.expire j])
      (a.setStage j after) := shows.moved node at_ (fun _ ↦ rfl) fun _ _ ↦ rfl
  rw [← view] at hshows
  refine matches_step (x := x) (hidden.trans other.symm) hshows ?_
  have hstep : (s.seen a).step x =
      some ((s.seen a).setStage j (after.attach (s.timeouts tn.job))) := by
    refine Server.step_of_timerMove alive (TimerState.nodes_attach node) move fun hposted ↦ ?_
    have hbefore : before = .posted := by
      rw [← at_]
      change tn.stage.attach _ = _ at hposted
      cases hstage : tn.stage with
      | running u => rw [hstage] at hposted; cases hposted
      | posted => rfl
      | _ => rw [hstage] at hposted; cases hposted
    change (a.attach s.tcpConn s.timeouts).busyWorkers < _
    rw [TimerState.busyWorkers_attach]
    exact free hbefore
  have hresults : (s.setTimer timer).results = s.results :=
    results_setTimer (by rw [view]; rfl) (by rw [view]; rfl)
  have hseen : (s.setTimer timer).seen (a.setStage j after) =
      s.server.resumed s.results ((a.setStage j after).attach s.tcpConn s.timeouts) := by
    unfold seen
    rw [hresults]
    rfl
  rw [hstep, hseen, TimerState.attach_setStage node]
  rfl

/-- The call of `run_after` that gets an id is the one that a thread is inside. -/
theorem Inner.thread_of_made {x : TimerAction} {k : Nat} (inner : s.Inner x)
    (step : s.tsTimer.step x = some timer) (new : s.tsTimer.view.ids k = none)
    (view : timer.view = s.tsTimer.view.made k) : ∃ th, s.inside th = some (.runAfter k) := by
  have hcall : x.runCall? = some k := by
    by_contra hne
    have hsame : timer.view.ids k = s.tsTimer.view.ids k :=
      congrArg Timer.RunPc.id? ((TimerSystem.step_inversion step).calls_of_ne hne)
    rw [view, new, TimerView.ids_made, Function.update_self] at hsame
    cases hsame
  cases inner with
  | runStep th k' now at_ =>
    cases hcall
    exact ⟨th, at_⟩
  | _ => cases hcall

/-- The call of `cancel` that deals with the table is the one that a thread is inside. -/
theorem Inner.thread_of_cancelled {x : TimerAction} {c : Nat} {id : Int} (inner : s.Inner x)
    (step : s.tsTimer.step x = some timer) (new : s.tsTimer.view.overs c = none)
    (view : timer.view = s.tsTimer.view.cancelled c id) :
    ∃ th, s.inside th = some (.cancel c) := by
  have hcall : x.cancelCall? = some c := by
    by_contra hne
    have hsame : timer.view.overs c = s.tsTimer.view.overs c :=
      congrArg Timer.CancelPc.over? ((TimerSystem.step_inversion step).cancels_of_ne hne)
    rw [view, new, TimerView.overs_cancelled, Function.update_self] at hsame
    cases hsame
  cases inner with
  | cancelStep th c' at_ =>
    cases hcall
    exact ⟨th, at_⟩
  | _ => cases hcall

/-- A callback that returns has closed its connection. -/
theorem Inner.closed_of_finished {x : TimerAction} {k : Nat} (inner : s.Inner x)
    (step : s.tsTimer.step x = some timer)
    (view : timer.view = s.tsTimer.view.moved k (.running ()) .done)
    (at_ : 0 < s.tsTimer.view.placed k (.running ())) : s.timeouts k = .ret := by
  have hfewer : timer.view.placed k (.running ()) < s.tsTimer.view.placed k (.running ()) := by
    rw [view]
    change _ + TimerView.one k .done k (.running ()) - TimerView.one k (.running ()) k _ < _
    simp only [TimerView.one, reduceCtorEq, and_false, if_false, and_true, if_true]
    omega
  obtain ⟨w, rfl, hw⟩ := (TimerSystem.step_inversion step).worker_of_inside hfewer
  cases inner with
  | worker w closed =>
    refine closed k ?_
    change (s.tsTimer.tmThreadPool.tpPool[w]?).bind _ = some k
    rw [hw]
    rfl

/-- A call of `run_after` gets its id. -/
theorem Coupled.matches_made (h : s.Coupled) {k : Nat} (alive : s.server.aborted = false)
    (shows : Shows s.tsTimer.view ops a) (other : b.plain? = none) {x : TimerAction}
    (inner : s.Inner x) (step : s.tsTimer.step x = some timer) (new : s.tsTimer.view.ids k = none)
    (view : timer.view = s.tsTimer.view.made k) : s.Matches a b (s.setTimer timer) := by
  obtain ⟨th, at_⟩ := inner.thread_of_made step new view
  have hwaits : s.results th = none := by
    rw [results, at_]
    exact new
  have hresults := results_update at_ (fun th' h' ↦ h.single th th' _ at_ h') (effect_made view)
  have hrequest : (s.seen a).request th = some (.runAfter (s.tcpConn k)) :=
    (Server.request_resumed hwaits).trans (h.serves th _ at_).2
  obtain ⟨x, hidden, hstep⟩ := Server.step_runAfter (s := s.seen a) alive hrequest
  refine matches_step (x := x) (hidden.trans other.symm) (by exact view ▸ shows.made new) ?_
  rw [hstep, seen_setTimer hwaits hresults, TimerState.attach_runAfter, ← shows.count]
  rfl

/-- A call of `cancel` deals with the id that its thread is about to cancel. -/
theorem Coupled.request_of_cancelled (h : s.Coupled) {th : ServerThread} {c : Nat} {id : Int}
    {x : TimerAction} (at_ : s.inside th = some (.cancel c))
    (step : s.tsTimer.step x = some timer) (dealt : timer.view.overs c = some id) :
    s.server.request th = some (.cancel id) := by
  obtain ⟨-, id', hrequest, hid⟩ := h.serves th _ at_
  have hafter := (TimerSystem.step_inversion step).cancel_id?_of_some hid
  have hover : (timer.cancels c).over? = some id := dealt
  have hsame : id' = id := by
    cases hpc : timer.cancels c with
    | ret id'' known | returned id'' known =>
      rw [hpc] at hafter hover
      exact (Option.some.inj hafter).symm.trans (Option.some.inj hover)
    | _ => rw [hpc] at hover; cases hover
  rw [hrequest, hsame]

/-- A call of `cancel` deals with the table. -/
theorem Coupled.matches_cancelled (h : s.Coupled) {c : Nat} {id : Int}
    (alive : s.server.aborted = false) (shows : Shows s.tsTimer.view ops a)
    (other : b.plain? = none) {x : TimerAction} (inner : s.Inner x)
    (step : s.tsTimer.step x = some timer) (new : s.tsTimer.view.overs c = none)
    (view : timer.view = s.tsTimer.view.cancelled c id) : s.Matches a b (s.setTimer timer) := by
  obtain ⟨th, at_⟩ := inner.thread_of_cancelled step new view
  have hwaits : s.results th = none := by
    rw [results, at_]
    exact new
  have hresults :=
    results_update at_ (fun th' h' ↦ h.single th th' _ at_ h') (effect_cancelled view)
  have hdealt : timer.view.overs c = some id := by
    rw [view, TimerView.overs_cancelled, Function.update_self]
  have hrequest : (s.seen a).request th = some (.cancel id) :=
    (Server.request_resumed hwaits).trans (h.request_of_cancelled at_ step hdealt)
  obtain ⟨x, hidden, hstep⟩ := Server.step_cancel (s := s.seen a) alive hrequest id
  refine matches_step (x := x) (hidden.trans other.symm) (by exact view ▸ shows.cancelled new) ?_
  rw [hstep, seen_setTimer hwaits hresults]
  rfl

/-- A statement of the timer. -/
theorem Coupled.matches_timer (h : s.Coupled) (alive : s.server.aborted = false)
    (shows : Shows s.tsTimer.view ops a) (other : b.plain? = none) {x : TimerAction}
    (inner : s.Inner x) (step : s.tsTimer.step x = some timer) :
    s.Matches a b (s.setTimer timer) := by
  have hmove := h.used.move (TimerSystem.step_inversion step)
  generalize hview : timer.view = v at hmove
  cases hmove with
  | silent =>
    refine matches_silent other (show Shows timer.view ops a from hview ▸ shows) ?_
    have hresults : (s.setTimer timer).results = s.results :=
      results_setTimer (by rw [hview]) (by rw [hview])
    unfold seen
    rw [hresults]
    rfl
  | made k new => exact h.matches_made alive shows other inner step new hview
  | cancelled c id new => exact h.matches_cancelled alive shows other inner step new hview
  | expired k at_ =>
    obtain ⟨j, tn, node, rfl, hstage⟩ := shows.exists_node at_
    exact matches_moved (x := .expire j) alive shows other rfl hview node hstage
      (.expire (by simp [TimerNode.attach, hstage, TimerStage.attach])) fun h ↦ (by cases h)
  | passed k id at_ got key =>
    obtain ⟨j, tn, node, rfl, hstage⟩ := shows.exists_node at_
    have hkey : a.tmIdStateMap tn.tnId = true := by
      rw [shows.keys, shows.tnId_eq node got]
      exact key
    exact matches_moved (x := .check j) alive shows other rfl hview node hstage
      (.pass (by simp [TimerNode.attach, hstage, TimerStage.attach]) hkey) fun h ↦ (by cases h)
  | dropped k id at_ got key =>
    obtain ⟨j, tn, node, rfl, hstage⟩ := shows.exists_node at_
    have hkey : a.tmIdStateMap tn.tnId = false := by
      apply Bool.eq_false_of_not_eq_true
      rw [shows.keys, shows.tnId_eq node got]
      exact key
    exact matches_moved (x := .check j) alive shows other rfl hview node hstage
      (.drop (by simp [TimerNode.attach, hstage, TimerStage.attach]) hkey) fun h ↦ (by cases h)
  | posted k at_ =>
    obtain ⟨j, tn, node, rfl, hstage⟩ := shows.exists_node at_
    exact matches_moved (x := .post j) alive shows other rfl hview node hstage
      (.post (by simp [TimerNode.attach, hstage, TimerStage.attach])) fun h ↦ (by cases h)
  | begun k at_ free =>
    obtain ⟨j, tn, node, rfl, hstage⟩ := shows.exists_node at_
    have henter : s.timeouts tn.job = .enter := by
      by_contra hne
      have hplaced := shows.placed j tn node
      rcases h.begun tn.job hne with hrunning | hdone
      · rw [hplaced, hstage] at hrunning
        cases hrunning
      · rw [hplaced, hstage] at hdone
        cases hdone
    have hbegin : (s.seen a).TimerMove j (tn.attach s.tcpConn s.timeouts) (.begin j)
        ((TimerStage.running ()).attach (s.timeouts tn.job)) := by
      rw [henter]
      exact .begin (by simp [TimerNode.attach, hstage, TimerStage.attach])
    exact matches_moved alive shows other rfl hview node hstage hbegin
      fun _ ↦ shows.busyWorkers_lt free
  | finished k at_ =>
    obtain ⟨j, tn, node, rfl, hstage⟩ := shows.exists_node at_
    have hret : s.timeouts tn.job = .ret := inner.closed_of_finished step hview at_
    exact matches_moved (x := .timerClose j) alive shows other rfl hview node hstage
      (.done (by simp [TimerNode.attach, hstage, TimerStage.attach, hret])) fun h ↦ (by cases h)

/-- Every step. -/
theorem Coupled.matches (h : s.Coupled) (shows : Shows s.tsTimer.view ops a)
    (hstep : s.step b = some t) : s.Matches a b t := by
  obtain ⟨alive, hstep⟩ := step_inversion hstep
  cases hstep with
  | server x th server by_ out own step => exact matches_server shows by_ out own step
  | runAfter th c timer out request step => exact matches_runAfter shows out step
  | cancel th id timer out request step => exact matches_cancel shows out step
  | timer b x timer action step =>
    exact h.matches_timer alive shows (plain?_of_timerAction action) (inner_of_timerAction action)
      step
  | callEnd th call id at_ result => exact matches_callEnd shows at_ result
  | timeout w k at_ body => exact matches_timeout alive shows at_ body

/-- The server `u` can be seen. -/
def Shown (s : TimedServer) (u : Server) : Prop :=
  s.Coupled ∧ ∃ ops a, Shows s.tsTimer.view ops a ∧ u = s.seen a

/-- A started server. -/
theorem shown_init (n : Nat) (elEvfd : Nat → Int) (ms : Int) :
    (init n elEvfd ms).Shown (.init n elEvfd) :=
  ⟨coupled_init n elEvfd ms, [], .init, Shows.init, rfl⟩

/-- Every step is at most one of the server that can be seen. -/
theorem Shown.step {u : Server} (few : s.FewTimers b) (hstep : s.step b = some t)
    (h : s.Shown u) : ∃ as u', run Server.step u as = some u' ∧
      Admits Server.step Server.FewTimers u as ∧
        as.filterMap ServerAction.plain? = b.plain?.toList ∧ t.Shown u' := by
  obtain ⟨hs, ops, a, hshows, rfl⟩ := h
  obtain ⟨x, ops', a', hrun, hplain, hshows'⟩ := hs.matches hshows hstep
  have hcoupled := hs.step few (step_inversion hstep).2
  refine ⟨x.toList, t.seen a', hrun, ?_, ?_, hcoupled, ops', a', hshows', rfl⟩
  · have hfew : a.tmCount < 2 ^ 32 - 1 := by
      rw [hshows.count]
      exact few
    cases x with
    | none => trivial
    | some x => exact ⟨hfew, fun _ _ ↦ trivial⟩
  · rw [← hplain]
    cases x with
    | none => rfl
    | some x => cases hx : x.plain? <;> simp [hx]

end TimedServer

/-- The server over the statements of its timer refines the server whose timer works in one piece.
For every run in which fewer than 2³² − 1 timers are made, however the statements of `run_after`
and `cancel` interleave with each other, with the tick thread, the pool workers and the rest of the
server, there is a run of that server in which the same is accepted, read, written, sent and closed
in the same order, and which leads to the same connections, epollers and descriptors; a thread that
is inside a call is before it, or after it when the call has had its effect, and the timer looks
the same. -/
theorem timed_server_refines {n : Nat} {elEvfd : Nat → Int} {ms : Int} {bs : List TimedAction}
    {s : TimedServer} (few : Admits TimedServer.step TimedServer.FewTimers (.init n elEvfd ms) bs)
    (hrun : run TimedServer.step (.init n elEvfd ms) bs = some s) :
    ∃ as ops a, run Server.step (.init n elEvfd) as = some (s.seen a) ∧
      Admits Server.step Server.FewTimers (.init n elEvfd) as ∧
        as.filterMap ServerAction.plain? = bs.filterMap TimedAction.plain? ∧
          Shows s.tsTimer.view ops a := by
  obtain ⟨as, u, hrun', hfew, hplain, -, ops, a, hshows, rfl⟩ :=
    run_simulate (fun _ _ _ _ ↦ TimedServer.Shown.step) (TimedServer.shown_init n elEvfd ms) few
      hrun
  exact ⟨as, ops, a, hrun', hfew, hplain, hshows⟩

/-- The statements of a call of `run_after`, when the clock reads `now`. -/
def timedRunAfter (th : ServerThread) (now : Int) : List TimedAction :=
  .call th :: List.replicate 6 (.callStep th now) ++ [.callEnd th]

/-- A connection is accepted and gets a message; between the test and the erasure of the `cancel`
that the message calls, the connection's timer expires. A worker begins to close it. -/
def expiryInsideMessage : List TimedAction :=
  .flatten [[.server (.accept 7), .server (.acceptor true), .server (.acceptor true)],
    timedRunAfter .acceptor 0, [.server (.acceptor true), .server (.acceptor true)],
    [.server (.wait 0 [(7, EPOLLIN)]), .server (.lookup 0), .server (.readData 0),
      .server (.message 0), .call (.loop 0), .callStep (.loop 0) 0],
    [.tick 0, .tick 0, .tick 0, .tickTop ⟨6000000000, 0, 0, 0, false, false, 6000⟩ 6000000000],
    .replicate 6 (.tick 6000000000), [.tickNotify none],
    [.callStep (.loop 0) 0, .callStep (.loop 0) 0, .callEnd (.loop 0)],
    .replicate 7 (.worker 0), [.timeout 0]]

/-- With the timer in one piece, the timer expires before the `cancel`. -/
theorem expiry_inside_message_seen :
    ∃ s as ops a, run TimedServer.step (.init 1 (fun _ ↦ 3) 6000) expiryInsideMessage = some s ∧
      s.timeouts 0 = .loadFd ∧ run Server.step (.init 1 fun _ ↦ 3) as = some (s.seen a) ∧
        as.filterMap ServerAction.plain? =
          [.accept 7, .wait 0 [(7, EPOLLIN)], .lookup 0, .readData 0] ∧
            Shows s.tsTimer.view ops a := by
  have hrun : (run TimedServer.step (.init 1 (fun _ ↦ 3) 6000) expiryInsideMessage).isSome := by
    decide +kernel
  have hclosing : ∀ s ∈ run TimedServer.step (.init 1 (fun _ ↦ 3) 6000) expiryInsideMessage,
      s.timeouts 0 = .loadFd := by
    decide +kernel
  have hfew : Admits TimedServer.step TimedServer.FewTimers (.init 1 (fun _ ↦ 3) 6000)
      expiryInsideMessage := by
    decide +kernel
  obtain ⟨s, hs⟩ := Option.isSome_iff_exists.mp hrun
  obtain ⟨as, ops, a, hrun', -, hplain, hshows⟩ := timed_server_refines hfew hs
  exact ⟨s, as, ops, a, hs, hclosing s hs, hrun', hplain, hshows⟩

end ConcurrentServer.Net
