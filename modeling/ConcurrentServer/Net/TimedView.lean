import ConcurrentServer.Net.TimedServer

/-!
# What can be seen of the server over its timer's statements

Where the server with its timer in one piece is when the timer has taken effect for some calls that
have not returned: their threads have gone on, and every callback has what it captured and its
place in `do_close`.
-/

namespace ConcurrentServer.Net
open ConcurrentServer.Base
open ConcurrentServer.Pool (Threadpool WorkerPc)
open ConcurrentServer.Timer (TimerSystem TimerAction TimerView Shows)

/-! ### Callbacks with what they captured -/

section Attach

variable {Job Pc : Type}

/-- The stage, with the place inside the callback. -/
def TimerStage.attach (pc : Pc) : TimerStage Unit → TimerStage Pc
  | .queued => .queued
  | .popped => .popped
  | .checked => .checked
  | .posted => .posted
  | .running () => .running pc
  | .done => .done
  | .dropped => .dropped

/-- The node of call `k` with what the callback of call `k` captured. -/
def TimerNode.attach (job : Nat → Job) (pcs : Nat → Pc) (tn : TimerNode Nat Unit) :
    TimerNode Job Pc :=
  ⟨tn.tnId, job tn.job, tn.stage.attach (pcs tn.job)⟩

namespace TimerState

/-- The timer with what the callbacks captured. -/
def attach (job : Nat → Job) (pcs : Nat → Pc) (a : TimerState Nat Unit) : TimerState Job Pc :=
  ⟨fun j ↦ (a.nodes j).map (TimerNode.attach job pcs), a.tmCount, a.tmIdStateMap⟩

variable {job : Nat → Job} {pcs : Nat → Pc} {a : TimerState Nat Unit}

theorem nodes_attach {j : Nat} {tn : TimerNode Nat Unit} (node : a.nodes j = some tn) :
    (a.attach job pcs).nodes j = some (tn.attach job pcs) := by
  change (a.nodes j).map _ = _
  rw [node, Option.map_some]

@[simp] theorem attach_runAfter (k : Nat) :
    (a.runAfter k).attach job pcs = (a.attach job pcs).runAfter (job k) := by
  unfold attach runAfter
  congr 1
  funext j
  by_cases hj : j = a.tmCount
  · simp [hj, TimerNode.attach, TimerStage.attach, nextId]
  · simp [hj]

/-- A node moves on. -/
theorem attach_setStage {j : Nat} {tn : TimerNode Nat Unit} (node : a.nodes j = some tn)
    (stage : TimerStage Unit) : (a.setStage j stage).attach job pcs =
      (a.attach job pcs).setStage j (stage.attach (pcs tn.job)) := by
  unfold attach setStage
  congr 1
  funext j'
  by_cases hj : j' = j
  · simp [hj, node, TimerNode.attach]
  · simp [hj]

/-- Only what the callbacks of nodes captured counts. -/
theorem attach_congr {job' : Nat → Job} (same : ∀ j tn, a.nodes j = some tn →
    job' tn.job = job tn.job) : a.attach job' pcs = a.attach job pcs := by
  unfold attach
  congr 1
  funext j
  cases node : a.nodes j with
  | none => rfl
  | some tn =>
    rw [Option.map_some, Option.map_some, TimerNode.attach, same j tn node]
    rfl

/-- The callback of a node moves on. -/
theorem attach_update {j : Nat} {tn : TimerNode Nat Unit} (node : a.nodes j = some tn)
    (single : ∀ j' tn', a.nodes j' = some tn' → tn'.job = tn.job → j' = j)
    (at_ : tn.stage = .running ()) (pc : Pc) :
    a.attach job (Function.update pcs tn.job pc) =
      (a.attach job pcs).setStage j (.running pc) := by
  unfold attach setStage
  congr 1
  funext j'
  by_cases hj : j' = j
  · simp [hj, node, TimerNode.attach, at_, TimerStage.attach]
  · rw [Function.update_of_ne hj]
    change (a.nodes j').map _ = (a.nodes j').map _
    cases node' : a.nodes j' with
    | none => rfl
    | some tn' =>
      have hne : tn'.job ≠ tn.job := fun h ↦ hj (single j' tn' node' h)
      simp only [Option.map_some, TimerNode.attach, Function.update_of_ne hne]

@[simp] theorem busyWorkers_attach : (a.attach job pcs).busyWorkers = a.busyWorkers := by
  unfold busyWorkers attach
  congr 1
  funext j
  dsimp only
  cases a.nodes j with
  | none => rfl
  | some tn =>
    obtain ⟨id, k, stage⟩ := tn
    cases stage <;> rfl

end TimerState

end Attach

/-! ### Threads that have gone on -/

namespace TimedServer

/-- The id that the call has got, or has dealt with: the timer has taken effect for it. -/
def effect (s : TimedServer) : TimerCall → Option Int
  | .runAfter k => s.tsTimer.view.ids k
  | .cancel c => s.tsTimer.view.overs c

/-- What a thread has of the call that it is inside. -/
def results (s : TimedServer) (th : ServerThread) : Option Int := (s.inside th).bind s.effect

/-- The server that can be seen when its timer in one piece is `a`. -/
def seen (s : TimedServer) (a : TimerState Nat Unit) : Server :=
  s.server.resumed s.results (a.attach s.tcpConn s.timeouts)

variable {s : TimedServer} {timer : TimerSystem}

/-- A thread that is inside no call has no result. -/
theorem results_eq_none {th : ServerThread} (out : s.inside th = none) : s.results th = none := by
  rw [results, out, Option.bind_none]

/-- The results are as they were, if the calls have the same effects. -/
theorem results_setTimer (ids : timer.view.ids = s.tsTimer.view.ids)
    (overs : timer.view.overs = s.tsTimer.view.overs) :
    (s.setTimer timer).results = s.results := by
  have heffect : (s.setTimer timer).effect = s.effect := by
    funext call
    cases call with
    | runAfter k => exact congrFun ids k
    | cancel c => exact congrFun overs c
  funext th
  unfold results
  rw [heffect]
  rfl

/-- A call of `run_after` has got its id. -/
theorem effect_made {k : Nat} (view : timer.view = s.tsTimer.view.made k) :
    (s.setTimer timer).effect =
      Function.update s.effect (.runAfter k) (some (counter32 s.tsTimer.view.count)) := by
  funext call
  cases call with
  | runAfter k' =>
    change timer.view.ids k' = _
    rw [view, TimerView.ids_made]
    by_cases hk : k' = k
    · rw [hk, Function.update_self, Function.update_self]
    · rw [Function.update_of_ne hk, Function.update_of_ne (by simpa using hk)]
      rfl
  | cancel c =>
    change timer.view.overs c = _
    rw [view, TimerView.overs_made, Function.update_of_ne TimerCall.noConfusion]
    rfl

/-- A call of `cancel` has dealt with the table. -/
theorem effect_cancelled {c : Nat} {id : Int} (view : timer.view = s.tsTimer.view.cancelled c id) :
    (s.setTimer timer).effect = Function.update s.effect (.cancel c) (some id) := by
  funext call
  cases call with
  | runAfter k =>
    change timer.view.ids k = _
    rw [view, TimerView.ids_cancelled, Function.update_of_ne TimerCall.noConfusion]
    rfl
  | cancel c' =>
    change timer.view.overs c' = _
    rw [view, TimerView.overs_cancelled]
    by_cases hc : c' = c
    · rw [hc, Function.update_self, Function.update_self]
    · rw [Function.update_of_ne hc, Function.update_of_ne (by simpa using hc)]
      rfl

/-- One call has taken effect. -/
theorem results_update {th : ServerThread} {call : TimerCall} {id : Int}
    (at_ : s.inside th = some call)
    (single : ∀ th', s.inside th' = some call → th' = th)
    (effect : (s.setTimer timer).effect = Function.update s.effect call (some id)) :
    (s.setTimer timer).results = Function.update s.results th (some id) := by
  funext th'
  unfold results
  rw [effect]
  change (s.inside th').bind _ = _
  by_cases hth : th' = th
  · rw [hth, at_, Function.update_self]
    exact Function.update_self _ _ _
  · rw [Function.update_of_ne hth]
    cases hcall : s.inside th' with
    | none => rfl
    | some call' =>
      have hne : call' ≠ call := fun h ↦ hth (single th' (by rw [hcall, h]))
      exact Function.update_of_ne hne _ _

/-- When a call has taken effect, its thread is seen to have gone on. -/
theorem seen_setTimer {th : ServerThread} {id : Int} (waits : s.results th = none)
    (results : (s.setTimer timer).results = Function.update s.results th (some id))
    (a : TimerState Nat Unit) : (s.setTimer timer).seen a =
      (s.server.resumed s.results (a.attach s.tcpConn s.timeouts)).resume id th := by
  rw [← Server.resumed_update waits, ← results]
  rfl

end TimedServer

end ConcurrentServer.Net
