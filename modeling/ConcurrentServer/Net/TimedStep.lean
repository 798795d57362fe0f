import ConcurrentServer.Net.ConnTimers
import ConcurrentServer.Net.TimedView

/-!
# Steps of the server over its timer's statements

What a step of `TimedServer.step` can do, and what holds in every state: which thread is inside
which call, that every id on its way to `cancel` has been returned by `run_after`, and how far the
callbacks are.
-/

namespace ConcurrentServer.Net
open ConcurrentServer.Base
open ConcurrentServer.Pool (Threadpool WorkerPc)
open ConcurrentServer.Timer (TimerSystem TimerAction TimerView)

/-! ### Ids in the server -/

namespace Server

/-- Every id that is stored, or on its way to be stored or cancelled, has the property. -/
structure AllIds (s : Server) (P : Int → Prop) : Prop where
  conn : ∀ c, P (s.conns c).tcTimerId
  acceptor : ∀ c id, s.acceptor = .addNewTcpConn c (.setTimerId id) → P id
  message : ∀ l c id batch, s.io l = .message c (.addNewTcpConn (.setTimerId id)) batch → P id
  cancel : ∀ l c id batch, s.io l = .message c (.cancel id) batch → P id

variable {s t : Server} {a : ServerAction} {P Q : Int → Prop}

/-- A started server. -/
theorem allIds_init (n : Nat) (elEvfd : Nat → Int) (none : P (-1)) : (init n elEvfd).AllIds P where
  conn _ := none
  acceptor _ _ h := nomatch h
  message _ _ _ _ h := nomatch h
  cancel _ _ _ _ h := nomatch h

/-- A weaker property. -/
theorem AllIds.imp (h : s.AllIds P) (weaker : ∀ id, P id → Q id) : s.AllIds Q where
  conn c := weaker _ (h.conn c)
  acceptor c id hacc := weaker id (h.acceptor c id hacc)
  message l c id batch hmsg := weaker id (h.message l c id batch hmsg)
  cancel l c id batch hmsg := weaker id (h.cancel l c id batch hmsg)

/-- A statement brings no id into the server but −1, unless a timer is made. -/
theorem AllIds.step (h : s.AllIds P) (hstep : Step s a t) (none : P (-1))
    (unused : ∀ c id, ¬ t.tsTimer.IdOf c id) : t.AllIds P where
  conn c := by
    rcases hstep.tcTimerId c with hold | ⟨-, hnew⟩ | hacc | ⟨l, batch, hmsg⟩
    · rw [hold]
      exact h.conn c
    · rw [hnew]
      exact none
    · exact h.acceptor c _ hacc
    · exact h.message l c _ batch hmsg
  acceptor c id hacc := by
    rcases hstep.acceptor_setTimerId hacc with hold | hnew
    · exact h.acceptor c id hold
    · exact absurd hnew (unused c id)
  message l c id batch hmsg := by
    rcases hstep.io_message hmsg with hold | hnew
    · exact h.message l c id batch hold
    · exact absurd hnew (unused c id)
  cancel l c id batch hmsg := by
    rcases hstep.io_message hmsg with hold | hnew
    · exact h.cancel l c id batch hold
    · rw [hnew.1]
      exact h.conn c

/-- A statement of `do_close` brings no id into the server. -/
theorem AllIds.closeStmt (h : s.AllIds P) (c : Nat) (p : ClosePc) : (s.closeStmt c p).AllIds P where
  conn c' := by
    rw [tcTimerId_closeStmt]
    exact h.conn c'
  acceptor c' id hacc := h.acceptor c' id (by rwa [closeStmt_acceptor] at hacc)
  message l c' id batch hmsg := h.message l c' id batch (by rwa [closeStmt_io] at hmsg)
  cancel l c' id batch hmsg := h.cancel l c' id batch (by rwa [closeStmt_io] at hmsg)

/-- A thread that goes on after `run_after` is about to store its id. -/
theorem AllIds.resume (h : s.AllIds P) {th : ServerThread} {id : Int}
    (new : ∀ c, s.request th = some (.runAfter c) → P id) : (s.resume id th).AllIds P := by
  cases th with
  | acceptor =>
    refine ⟨h.conn, fun c id' hacc ↦ ?_, h.message, h.cancel⟩
    rcases AcceptPc.setTimerId_of_resume hacc with hold | ⟨request, rfl⟩
    · exact h.acceptor c id' hold
    · exact new c request
  | loop l =>
    refine ⟨h.conn, h.acceptor, fun l' c id' batch hmsg ↦ ?_, fun l' c id' batch hmsg ↦ ?_⟩
    · rcases io_setIo_eq hmsg with hold | ⟨-, hnew⟩
      · exact h.message l' c id' batch hold
      · rcases IoPc.setTimerId_of_resume hnew with hold | ⟨request, rfl⟩
        · exact h.message l c id' batch hold
        · exact new c request
    · rcases io_setIo_eq hmsg with hold | ⟨-, hnew⟩
      · exact h.cancel l' c id' batch hold
      · exact h.cancel l c id' batch (IoPc.cancel_of_resume hnew)

end Server

namespace TimedServer

variable {s t : TimedServer} {b : TimedAction}

/-- The statements of the timer that can come next. -/
inductive Inner (s : TimedServer) : TimerAction → Prop
  | runStep (th : ServerThread) (k : Nat) (now : Int) (at_ : s.inside th = some (.runAfter k)) :
    Inner s (.runStep k now)
  | cancelStep (th : ServerThread) (c : Nat) (at_ : s.inside th = some (.cancel c)) :
    Inner s (.cancelStep c)
  | tick (now : Int) : Inner s (.tick now)
  | tickTop (n : Timer.TimerNode) (now : Int) : Inner s (.tickTop n now)
  | tickNotify (notified : Option Nat) : Inner s (.tickNotify notified)
  | worker (w : Nat) (closed : ∀ k ∈ s.callback w, s.timeouts k = .ret) : Inner s (.worker w)

/-- An action of the timer executes one of them. -/
theorem inner_of_timerAction {a : TimerAction} (h : s.timerAction b = some a) : s.Inner a := by
  cases b with
  | callStep th now =>
    simp only [timerAction] at h
    split at h
    · next k at_ =>
      cases h
      exact .runStep th k now at_
    · next c at_ =>
      cases h
      exact .cancelStep th c at_
    · cases h
  | tick now =>
    cases h
    exact .tick now
  | tickTop n now =>
    cases h
    exact .tickTop n now
  | tickNotify notified =>
    cases h
    exact .tickNotify notified
  | worker w =>
    obtain ⟨closed, h⟩ := Option.ite_none_right_eq_some.mp h
    cases h
    exact .worker w closed
  | _ => cases h

/-- An action of the timer is none of the server's threads. -/
theorem plain?_of_timerAction {a : TimerAction} (h : s.timerAction b = some a) :
    b.plain? = none := by
  cases b with
  | server x => cases h
  | _ => rfl

/-- The steps. -/
inductive Step (s : TimedServer) : TimedAction → TimedServer → Prop
  | server (a : ServerAction) (th : ServerThread) (server : Server) (by_ : a.by? = some th)
    (out : s.inside th = none) (own : s.server.request th = none)
    (step : s.server.step a = some server) : Step s (.server a) { s with server := server }
  | runAfter (th : ServerThread) (c : Nat) (timer : TimerSystem) (out : s.inside th = none)
    (request : s.server.request th = some (.runAfter c))
    (step : s.tsTimer.step (.run s.runs (.runAfter s.tsTcpConnTimoutMs false)) = some timer) :
    Step s (.call th) ((s.setTimer timer).enterRunAfter th c)
  | cancel (th : ServerThread) (id : Int) (timer : TimerSystem) (out : s.inside th = none)
    (request : s.server.request th = some (.cancel id))
    (step : s.tsTimer.step (.cancel s.cancels id) = some timer) :
    Step s (.call th) ((s.setTimer timer).enterCancel th)
  | timer (b : TimedAction) (a : TimerAction) (timer : TimerSystem)
    (action : s.timerAction b = some a) (step : s.tsTimer.step a = some timer) :
    Step s b (s.setTimer timer)
  | callEnd (th : ServerThread) (call : TimerCall) (id : Int) (at_ : s.inside th = some call)
    (result : s.result call = some id) : Step s (.callEnd th) (s.leave th id)
  | timeout (w k : Nat) (at_ : s.callback w = some k) (body : s.timeouts k ≠ .ret) :
    Step s (.timeout w) (s.closeStep k)

/-- Everything that a step can do. -/
theorem step_inversion (h : s.step b = some t) : s.server.aborted = false ∧ Step s b t := by
  unfold step at h
  rw [Option.ite_none_left_eq_some] at h
  obtain ⟨alive, h⟩ := h
  refine ⟨Bool.eq_false_of_not_eq_true alive, ?_⟩
  cases b with
  | server a =>
    simp only [stepLive] at h
    split at h
    · next th hth =>
      rw [Option.ite_none_right_eq_some] at h
      obtain ⟨⟨out, own⟩, h⟩ := h
      obtain ⟨server, hstep, rfl⟩ := Option.map_eq_some_iff.mp h
      exact .server a th server hth out own hstep
    · cases h
  | call th =>
    simp only [stepLive, Option.ite_none_right_eq_some] at h
    obtain ⟨out, h⟩ := h
    unfold callStart at h
    split at h
    · next c request =>
      obtain ⟨timer, hstep, rfl⟩ := Option.map_eq_some_iff.mp h
      exact .runAfter th c timer out request hstep
    · next id request =>
      obtain ⟨timer, hstep, rfl⟩ := Option.map_eq_some_iff.mp h
      exact .cancel th id timer out request hstep
    · cases h
  | callEnd th =>
    obtain ⟨id, hid, rfl⟩ := Option.map_eq_some_iff.mp h
    obtain ⟨call, at_, result⟩ := Option.bind_eq_some_iff.mp hid
    exact .callEnd th call id at_ result
  | timeout w =>
    obtain ⟨k, at_, hk⟩ := Option.bind_eq_some_iff.mp h
    rw [Option.ite_none_left_eq_some] at hk
    obtain ⟨body, hk⟩ := hk
    cases hk
    exact .timeout w k at_ body
  | callStep _ _ | tick _ | tickTop _ _ | tickNotify _ | worker _ =>
    simp only [stepLive] at h
    obtain ⟨a, action, h⟩ := Option.bind_eq_some_iff.mp h
    obtain ⟨timer, hstep, rfl⟩ := Option.map_eq_some_iff.mp h
    exact .timer _ a timer action hstep

/-! ### Between the server and its timer -/

/-- A thread is inside a call that has been made, and is where it was made. -/
def Serves (s : TimedServer) (th : ServerThread) : TimerCall → Prop
  | .runAfter k => k < s.runs ∧ s.server.request th = some (.runAfter (s.tcpConn k))
  | .cancel c =>
    c < s.cancels ∧
      ∃ id, s.server.request th = some (.cancel id) ∧ (s.tsTimer.cancels c).id? = some id

/-- What holds between the server and its timer. -/
structure Coupled (s : TimedServer) : Prop where
  used : s.tsTimer.Used
  unused : s.server.tsTimer = .init
  runs : ∀ k, s.runs ≤ k → s.tsTimer.calls k = .idle
  cancels : ∀ c, s.cancels ≤ c → s.tsTimer.cancels c = .idle
  serves : ∀ th call, s.inside th = some call → s.Serves th call
  single : ∀ th th' call, s.inside th = some call → s.inside th' = some call → th' = th
  ids : s.server.AllIds fun id ↦ id = -1 ∨ id ∈ s.tsTimer.emplaced
  begun : ∀ k, s.timeouts k ≠ .enter → s.tsTimer.view.Begun k

/-- A started server. -/
theorem coupled_init (n : Nat) (elEvfd : Nat → Int) (ms : Int) : (init n elEvfd ms).Coupled where
  used := by
    have hstart : TimerSystem.init.step .start = some { TimerSystem.init with tick := .head } := rfl
    exact TimerSystem.used_init.step (a := .start) trivial hstart
  unused := rfl
  runs _ _ := rfl
  cancels _ _ := rfl
  serves _ _ h := nomatch h
  single _ _ _ h := nomatch h
  ids := Server.allIds_init n elEvfd (Or.inl rfl)
  begun _ h := absurd rfl h

/-- A thread stays inside its call, if it stays where it is. -/
theorem Serves.keep {th : ServerThread} {call : TimerCall} (h : s.Serves th call)
    (runs : s.runs ≤ t.runs) (cancels : s.cancels ≤ t.cancels)
    (request : t.server.request th = s.server.request th)
    (tcpConn : ∀ k < s.runs, t.tcpConn k = s.tcpConn k)
    (args : ∀ c id, (s.tsTimer.cancels c).id? = some id →
      (t.tsTimer.cancels c).id? = some id) : t.Serves th call := by
  cases call with
  | runAfter k =>
    obtain ⟨hlt, hreq⟩ := h
    exact ⟨Nat.lt_of_lt_of_le hlt runs, by rw [request, hreq, tcpConn k hlt]⟩
  | cancel c =>
    obtain ⟨hlt, id, hreq, hid⟩ := h
    exact ⟨Nat.lt_of_lt_of_le hlt cancels, id, request.trans hreq, args c id hid⟩

/-- A statement of a thread of the server. -/
theorem Coupled.server (h : s.Coupled) {a : ServerAction} {th : ServerThread} {server : Server}
    (by_ : a.by? = some th) (out : s.inside th = none) (own : s.server.request th = none)
    (step : s.server.step a = some server) : { s with server := server }.Coupled where
  used := h.used
  unused := (Server.tsTimer_of_step by_ own step).trans h.unused
  runs := h.runs
  cancels := h.cancels
  serves th' call at_ := by
    have hne : th' ≠ th := by
      rintro rfl
      rw [out] at at_
      cases at_
    exact (h.serves th' call at_).keep (Nat.le_refl _) (Nat.le_refl _)
      (Server.request_of_step by_ own step hne) (fun _ _ ↦ rfl) fun _ _ hid ↦ hid
  single := h.single
  ids := by
    refine h.ids.step (Server.step_inversion step) (Or.inl rfl) fun c id hid ↦ ?_
    rw [Server.tsTimer_of_step by_ own step, h.unused] at hid
    obtain ⟨k, tn, hk, -⟩ := hid
    cases hk
  begun := h.begun

/-- Two threads are not inside one call, when one thread enters a call of its own. -/
theorem single_update {inside : ServerThread → Option TimerCall} {th : ServerThread}
    {call : TimerCall}
    (single : ∀ th₁ th₂ call, inside th₁ = some call → inside th₂ = some call → th₂ = th₁)
    (fresh : ∀ th', inside th' ≠ some call) (th₁ th₂ : ServerThread) (call' : TimerCall)
    (h₁ : Function.update inside th (some call) th₁ = some call')
    (h₂ : Function.update inside th (some call) th₂ = some call') : th₂ = th₁ := by
  have hnew {th' : ServerThread} (h : Function.update inside th (some call) th' = some call') :
      th' = th ∧ call' = call ∨ inside th' = some call' ∧ call' ≠ call := by
    by_cases hth : th' = th
    · rw [hth, Function.update_self] at h
      exact Or.inl ⟨hth, (Option.some.inj h).symm⟩
    · rw [Function.update_of_ne hth] at h
      refine Or.inr ⟨h, ?_⟩
      rintro rfl
      exact fresh th' h
  rcases hnew h₁ with ⟨rfl, rfl⟩ | ⟨hold₁, hne₁⟩
  · rcases hnew h₂ with ⟨hth, -⟩ | ⟨-, hne⟩
    · exact hth
    · exact absurd rfl hne
  · rcases hnew h₂ with ⟨-, he⟩ | ⟨hold₂, -⟩
    · exact absurd he hne₁
    · exact single th₁ th₂ call' hold₁ hold₂

/-- The timer of a server has made a step. -/
theorem Coupled.begun_setTimer (h : s.Coupled) {a : TimerAction} {timer : TimerSystem}
    (step : s.tsTimer.step a = some timer) (k : Nat) (hk : s.timeouts k ≠ .enter) :
    timer.view.Begun k :=
  (h.begun k hk).move (h.used.move (TimerSystem.step_inversion step))

/-- The ids that are known stay known. -/
theorem Coupled.ids_setTimer (h : s.Coupled) {a : TimerAction} {timer : TimerSystem}
    (step : s.tsTimer.step a = some timer) :
    s.server.AllIds fun id ↦ id = -1 ∨ id ∈ timer.emplaced :=
  h.ids.imp fun _ hid ↦
    hid.imp_right fun hmem ↦ (TimerSystem.step_inversion step).emplaced_subset hmem

/-- A thread makes a call of `run_after`. -/
theorem Coupled.runAfter (h : s.Coupled) {th : ServerThread} {c : Nat} {timer : TimerSystem}
    (request : s.server.request th = some (.runAfter c))
    (step : s.tsTimer.step (.run s.runs (.runAfter s.tsTcpConnTimoutMs false)) = some timer) :
    ((s.setTimer timer).enterRunAfter th c).Coupled where
  used := by
    have hone : s.tsTimer.ServerUse (.run s.runs (.runAfter s.tsTcpConnTimoutMs false)) := rfl
    exact h.used.step hone step
  unused := h.unused
  runs k hk := by
    have hne : s.runs ≠ k := Nat.ne_of_lt hk
    have hsame := (TimerSystem.step_inversion step).calls_of_ne (k := k)
      (by simpa [TimerAction.runCall?] using hne)
    exact hsame.trans (h.runs k (Nat.le_of_succ_le hk))
  cancels c' hc := by
    have hsame := (TimerSystem.step_inversion step).cancels_of_ne (c := c') nofun
    exact hsame.trans (h.cancels c' hc)
  serves th' call at_ := by
    change Function.update s.inside th _ th' = _ at at_
    by_cases hth : th' = th
    · rw [hth, Function.update_self] at at_
      cases at_
      refine ⟨Nat.lt_succ_self _, ?_⟩
      have hconn : Function.update s.tcpConn s.runs c s.runs = c := Function.update_self _ _ _
      rw [hth]
      exact request.trans (congrArg (fun c ↦ some (TimerRequest.runAfter c)) hconn.symm)
    · rw [Function.update_of_ne hth] at at_
      refine (h.serves th' call at_).keep (Nat.le_succ _) (Nat.le_refl _) rfl ?_ ?_
      · intro k hk
        exact Function.update_of_ne (Nat.ne_of_lt hk) _ _
      · intro c' id hid
        exact (TimerSystem.step_inversion step).cancel_id?_of_some hid
  single := single_update h.single fun th' hin ↦ Nat.lt_irrefl _ (h.serves th' _ hin).1
  ids := h.ids_setTimer step
  begun := h.begun_setTimer step

/-- A thread makes a call of `cancel`. -/
theorem Coupled.cancel (h : s.Coupled) {th : ServerThread} {id : Int} {timer : TimerSystem}
    (request : s.server.request th = some (.cancel id))
    (step : s.tsTimer.step (.cancel s.cancels id) = some timer) :
    ((s.setTimer timer).enterCancel th).Coupled where
  used := by
    refine h.used.step (show s.tsTimer.ServerUse (.cancel s.cancels id) from ?_) step
    cases th with
    | acceptor =>
      obtain ⟨c, -, hreq⟩ := AcceptPc.eq_of_request request
      cases hreq
    | loop l =>
      obtain ⟨c, batch, hat⟩ := IoPc.eq_of_request_cancel request
      exact h.ids.cancel l c id batch hat
  unused := h.unused
  runs k hk := by
    have hsame := (TimerSystem.step_inversion step).calls_of_ne (k := k) nofun
    exact hsame.trans (h.runs k hk)
  cancels c' hc := by
    have hne : s.cancels ≠ c' := Nat.ne_of_lt hc
    have hsame := (TimerSystem.step_inversion step).cancels_of_ne (c := c')
      (by simpa [TimerAction.cancelCall?] using hne)
    exact hsame.trans (h.cancels c' (Nat.le_of_succ_le hc))
  serves th' call at_ := by
    change Function.update s.inside th _ th' = _ at at_
    by_cases hth : th' = th
    · rw [hth, Function.update_self] at at_
      cases at_
      refine ⟨Nat.lt_succ_self _, id, by rw [hth]; exact request, ?_⟩
      obtain ⟨-, rfl⟩ := TimerSystem.setCancel_of_cancel step
      change (Function.update s.tsTimer.cancels s.cancels (.test id _) s.cancels).id? = some id
      rw [Function.update_self]
      rfl
    · rw [Function.update_of_ne hth] at at_
      refine (h.serves th' call at_).keep (Nat.le_refl _) (Nat.le_succ _) rfl (fun _ _ ↦ rfl) ?_
      intro c' id hid
      exact (TimerSystem.step_inversion step).cancel_id?_of_some hid
  single := single_update h.single fun th' hin ↦ Nat.lt_irrefl _ (h.serves th' _ hin).1
  ids := h.ids_setTimer step
  begun := h.begun_setTimer step

/-- What a timer is used for inside a call, and by its own threads. -/
theorem Inner.serverUse {a : TimerAction} (inner : s.Inner a)
    (few : s.tsTimer.tmCount < 2 ^ 32 - 1) : s.tsTimer.ServerUse a := by
  cases inner with
  | runStep th k now at_ => exact few
  | _ => trivial

/-- The timer makes a step. -/
theorem Coupled.timer (h : s.Coupled) (few : s.tsTimer.tmCount < 2 ^ 32 - 1) {a : TimerAction}
    {timer : TimerSystem} (inner : s.Inner a) (step : s.tsTimer.step a = some timer) :
    (s.setTimer timer).Coupled where
  used := h.used.step (inner.serverUse few) step
  unused := h.unused
  runs k hk := by
    have hsame : timer.calls k = s.tsTimer.calls k := by
      refine (TimerSystem.step_inversion step).calls_of_ne ?_
      cases inner with
      | runStep th k' now at_ =>
        have hlt : k' < s.runs := (h.serves th _ at_).1
        intro hcall
        cases hcall
        exact absurd hk (Nat.not_le_of_lt hlt)
      | _ => nofun
    exact hsame.trans (h.runs k hk)
  cancels c hc := by
    have hsame : timer.cancels c = s.tsTimer.cancels c := by
      refine (TimerSystem.step_inversion step).cancels_of_ne ?_
      cases inner with
      | cancelStep th c' at_ =>
        have hlt : c' < s.cancels := (h.serves th _ at_).1
        intro hcall
        cases hcall
        exact absurd hc (Nat.not_le_of_lt hlt)
      | _ => nofun
    exact hsame.trans (h.cancels c hc)
  serves th call at_ :=
    (h.serves th call at_).keep (Nat.le_refl _) (Nat.le_refl _) rfl (fun _ _ ↦ rfl)
      fun _ _ hid ↦ (TimerSystem.step_inversion step).cancel_id?_of_some hid
  single := h.single
  ids := h.ids_setTimer step
  begun := h.begun_setTimer step

/-- A thread that has left its call is inside none. -/
theorem of_update_none {inside : ServerThread → Option TimerCall} {th th' : ServerThread}
    {call : TimerCall} (h : Function.update inside th none th' = some call) :
    th' ≠ th ∧ inside th' = some call := by
  have hne : th' ≠ th := by
    rintro rfl
    rw [Function.update_self] at h
    cases h
  exact ⟨hne, by rwa [Function.update_of_ne hne] at h⟩

/-- The id that `run_after` has returned has been entered into the table. -/
theorem Coupled.returned (h : s.Coupled) {th : ServerThread} {call : TimerCall} {id : Int} {c : Nat}
    (at_ : s.inside th = some call) (result : s.result call = some id)
    (request : s.server.request th = some (.runAfter c)) : id ∈ s.tsTimer.emplaced := by
  have hserves := h.serves th call at_
  cases call with
  | runAfter k =>
    refine (h.used.sound.numbered.entered id).mpr ⟨k, ?_⟩
    simp only [TimedServer.result] at result
    split at result
    · next hpc => exact hpc ▸ result
    · cases result
  | cancel c' =>
    obtain ⟨-, id', hreq, -⟩ := hserves
    rw [request] at hreq
    cases hreq

/-- A thread goes on after its call. -/
theorem Coupled.callEnd (h : s.Coupled) {th : ServerThread} {call : TimerCall} {id : Int}
    (at_ : s.inside th = some call) (result : s.result call = some id) :
    (s.leave th id).Coupled where
  used := h.used
  unused := (Server.tsTimer_resume id).trans h.unused
  runs := h.runs
  cancels := h.cancels
  serves th' call' at_' := by
    obtain ⟨hne, hin⟩ := of_update_none at_'
    exact (h.serves th' call' hin).keep (Nat.le_refl _) (Nat.le_refl _)
      (Server.request_resume id hne) (fun _ _ ↦ rfl) fun _ _ hid ↦ hid
  single th₁ th₂ call' h₁ h₂ := h.single th₁ th₂ call' (of_update_none h₁).2 (of_update_none h₂).2
  ids := h.ids.resume fun _ request ↦ Or.inr (h.returned at_ result request)
  begun := h.begun

/-- A worker that is inside a callback executes it. -/
theorem running_of_callback {w k : Nat} (at_ : s.callback w = some k) :
    0 < s.tsTimer.view.placed k (.running ()) := by
  obtain ⟨pc, hpc, hinside⟩ := Option.bind_eq_some_iff.mp at_
  change 0 < s.tsTimer.tmThreadPool.tpPool.countP _
  exact List.countP_pos_iff.mpr ⟨pc, List.mem_of_getElem? hpc, beq_iff_eq.mpr hinside⟩

/-- A statement of the `do_close` that a callback calls. -/
theorem Coupled.timeout (h : s.Coupled) {w k : Nat} (at_ : s.callback w = some k) :
    (s.closeStep k).Coupled where
  used := h.used
  unused := by
    change (s.server.closeStmt _ _).tsTimer = _
    rw [Server.closeStmt_tsTimer, h.unused]
  runs := h.runs
  cancels := h.cancels
  serves th call hin :=
    (h.serves th call hin).keep (Nat.le_refl _) (Nat.le_refl _)
      (Server.request_closeStmt _ _) (fun _ _ ↦ rfl) fun _ _ hid ↦ hid
  single := h.single
  ids := h.ids.closeStmt _ _
  begun k' hk' := by
    by_cases hk : k' = k
    · rw [hk]
      exact Or.inl (running_of_callback at_)
    · refine h.begun k' fun henter ↦ hk' ?_
      exact (Function.update_of_ne hk _ _).trans henter

/-- Every step keeps the server and its timer coupled. -/
theorem Coupled.step (h : s.Coupled) (few : s.FewTimers b) (hstep : Step s b t) : t.Coupled := by
  cases hstep with
  | server a th server by_ out own step => exact h.server by_ out own step
  | runAfter th c timer out request step => exact h.runAfter request step
  | cancel th id timer out request step => exact h.cancel request step
  | timer b a timer action step => exact h.timer few (inner_of_timerAction action) step
  | callEnd th call id at_ result => exact h.callEnd at_ result
  | timeout w k at_ body => exact h.timeout at_

end TimedServer

end ConcurrentServer.Net
