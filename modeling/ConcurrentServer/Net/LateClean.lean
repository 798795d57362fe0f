import ConcurrentServer.Net.Teardown
import ConcurrentServer.Timer.Workers

/-!
# Callbacks that come too late

`src/net/tcp_server.h:43–78`, `src/net/tcp_server.cpp:69–82`, `src/timer/timer.h:42–50`. Once
`ts_tcp_connections` is destroyed, a timeout callback that is in the timer's pool, or that the tick
thread still posts, goes through a vector that is gone. Without one nothing does. If the timer were
declared after the vector its destructor would have joined the workers before.
-/

namespace ConcurrentServer.Net
open ConcurrentServer.Base
open ConcurrentServer.Pool (Threadpool)
open ConcurrentServer.Timer (TimerSystem TimerAction TickPc)

/-! ### Callbacks that are still to clean -/

/-- A worker at this place has a callback whose `do_clean` is before it. -/
def aheadOfClean : Option (Pool.WorkerPc Nat) → TimeoutPc → Bool
  | some (.dec _), _ | some (.call _), _ => true
  | some (.inside _), pc => pc != .ret
  | _, _ => false

namespace Teardown

variable {s t : Teardown} {a : TeardownAction}

/-- Worker `w` has a callback whose `do_clean` is before it. -/
def ahead (s : Teardown) (w : Nat) : Bool :=
  aheadOfClean s.tsTimer.tmThreadPool.tpPool[w]? (s.timeouts w)

/-- No callback in the pool has its `do_clean` before it. -/
def Idle (s : Teardown) : Prop :=
  s.tsTimer.tmThreadPool.tpTasks = [] ∧
    ∀ w < s.tsTimer.tmThreadPool.tpPool.length, s.ahead w = false

instance (s : Teardown) : Decidable s.Idle := inferInstanceAs (Decidable (_ ∧ _))

/-- The tick thread is about to insert a task into the pool. -/
def posts : TickPc → Bool
  | .emplace _ _ => true
  | _ => false

/-- When the vector is destroyed, no callback in the pool has its `do_clean` before it, and from
then on the tick thread posts none. -/
def Quiet (s : Teardown) : TeardownAction → Prop
  | .destroyMember => s.members.head? = some .tsTcpConnections → s.Idle
  | .timer (.tick _) => s.tsTcpConnections = none → posts s.tsTimer.tick = false
  | _ => True

instance (s : Teardown) (a : TeardownAction) : Decidable (s.Quiet a) :=
  match a with
  | .destroyMember =>
    inferInstanceAs (Decidable (s.members.head? = some .tsTcpConnections → s.Idle))
  | .timer (.tick _) =>
    inferInstanceAs (Decidable (s.tsTcpConnections = none → posts s.tsTimer.tick = false))
  | .timer .start | .timer (.run _ _) | .timer (.runStep _ _) | .timer (.cancel _ _)
  | .timer (.cancelStep _) | .timer (.tickTop _ _) | .timer (.tickNotify _) | .timer (.worker _)
  | .timer .destroy | .timer .destructor | .timeout _ | .emplaceBack _ | .destroy =>
    inferInstanceAs (Decidable True)

/-- Once the vector is destroyed nothing in the pool is to come to it, and nothing has. -/
structure Safe (s : Teardown) : Prop where
  late : s.late = []
  tasks : s.tsTcpConnections = none → s.tsTimer.tmThreadPool.tpTasks = []
  workers : s.tsTcpConnections = none → ∀ w, s.ahead w = false

/-- A worker that there is not has nothing before it. -/
theorem Idle.workers (h : s.Idle) (w : Nat) : s.ahead w = false := by
  by_cases hlt : w < s.tsTimer.tmThreadPool.tpPool.length
  · exact h.2 w hlt
  · unfold ahead
    rw [List.getElem?_eq_none (by omega)]
    rfl

/-- `do_clean` on the vector erases the connection of the callback. -/
theorem doClean_of_vector {conns : List Nat} (vector : s.tsTcpConnections = some conns) {k : Nat} :
    s.doClean k = { s with tsTcpConnections := some (conns.erase (s.tcpConn k)) } := by
  simp only [doClean, vector]

/-- As long as the vector is there nothing has come to it too late. -/
theorem safe_of_vector (late : s.late = []) (vector : s.tsTcpConnections ≠ none) : s.Safe :=
  ⟨late, fun hnone ↦ absurd hnone vector, fun hnone ↦ absurd hnone vector⟩

/-- The pool moves without a new task. -/
theorem Safe.keepsTasks (h : s.Safe) {timer : TimerSystem}
    (hkeeps : TimerSystem.KeepsTasks s.tsTimer.tmThreadPool timer.tmThreadPool) :
    Safe { s with tsTimer := timer } := by
  refine ⟨h.late, ?_, ?_⟩
  · intro hnone
    show timer.tmThreadPool.tpTasks = []
    rw [hkeeps.tasks]
    exact h.tasks hnone
  · intro hnone w
    have hbefore := h.workers hnone w
    unfold ahead at hbefore
    show aheadOfClean timer.tmThreadPool.tpPool[w]? (s.timeouts w) = false
    cases hw : timer.tmThreadPool.tpPool[w]? with
    | none => rfl
    | some pc =>
      rcases hkeeps.places w pc hw with hsame | hblocked
      · rw [← hsame]
        exact hbefore
      · rw [hblocked]
        rfl

/-- A worker that has no task, or is to return from one, moves on without one when none is
queued. -/
theorem worker_without_task {pool pool' : Threadpool Nat} {w : Nat}
    (h : pool.workerStep w = some pool') (htasks : pool.tpTasks = [])
    (hpc : ∀ pc, pool.tpPool[w]? = some pc → pc.task? = none ∨ ∃ k, pc = .inside k) :
    pool'.tpTasks = [] ∧
      ∃ pc', pool'.tpPool = pool.tpPool.set w pc' ∧ pc'.task? = none := by
  obtain ⟨pc, pc', hstep⟩ := Threadpool.workerStep_inversion h
  rcases hpc pc hstep.at_ with hnone | ⟨k, rfl⟩
  · cases hstep.move with
    | stay task tasks => exact ⟨by rw [tasks, htasks], pc', hstep.pool, by rw [task, hnone]⟩
    | take k before after tasks =>
      rw [htasks] at tasks
      cases tasks
    | finish k before after tasks =>
      rw [before] at hnone
      cases hnone
  · have hreturn : pool.workerStep w =
        some { pool.setWorker w .inc with finished := pool.finished ++ [k] } := by
      simp only [Threadpool.workerStep, hstep.at_]
    rw [hreturn] at h
    cases h
    exact ⟨htasks, .inc, rfl, rfl⟩

/-- A worker without a task has no callback. -/
theorem aheadOfClean_of_task?_eq_none {pc : Pool.WorkerPc Nat} {p : TimeoutPc}
    (h : pc.task? = none) : aheadOfClean (some pc) p = false := by
  cases pc <;> first | rfl | cases h

/-- A worker with nothing before it has no task or is to return from one. -/
theorem task_of_aheadOfClean {pc : Pool.WorkerPc Nat} {p : TimeoutPc}
    (h : aheadOfClean (some pc) p = false) : pc.task? = none ∨ ∃ k, pc = .inside k := by
  cases pc with
  | dec k | call k => cases h
  | inside k => exact Or.inr ⟨k, rfl⟩
  | _ => exact Or.inl rfl

/-- A step of a worker. -/
theorem Safe.worker (h : s.Safe) {w : Nat} {timer : TimerSystem}
    (moved : s.tsTimer.step (.worker w) = some timer) :
    Safe { s with tsTimer := timer, timeouts := Function.update s.timeouts w .close } := by
  have hpool : s.tsTcpConnections = none → timer.tmThreadPool.tpTasks = [] ∧
      ∃ pc', timer.tmThreadPool.tpPool = s.tsTimer.tmThreadPool.tpPool.set w pc' ∧
        pc'.task? = none := by
    intro hnone
    apply worker_without_task (TimerSystem.worker_of_step moved) (h.tasks hnone)
    intro pc hpc
    have hahead := h.workers hnone w
    rw [ahead, hpc] at hahead
    exact task_of_aheadOfClean hahead
  refine ⟨h.late, fun hnone ↦ (hpool hnone).1, ?_⟩
  intro hnone w'
  obtain ⟨-, pc', hset, htask⟩ := hpool hnone
  show aheadOfClean timer.tmThreadPool.tpPool[w']? (Function.update s.timeouts w .close w') = false
  rw [hset]
  by_cases hw : w' = w
  · cases hget : (s.tsTimer.tmThreadPool.tpPool.set w pc')[w']? with
    | none => rfl
    | some pc =>
      rw [hw] at hget
      have hpc : pc = pc' := by
        have hlt := (List.getElem?_eq_some_iff.mp hget).1
        rw [List.length_set] at hlt
        rw [List.getElem?_set_self hlt] at hget
        exact (Option.some.inj hget).symm
      rw [hpc]
      exact aheadOfClean_of_task?_eq_none htask
  · rw [List.getElem?_set_ne (Ne.symm hw), Function.update_of_ne hw]
    exact h.workers hnone w'

/-- A step of the timer that is no worker's. -/
theorem Safe.timer (h : s.Safe) {a : TimerAction} {timer : TimerSystem}
    (hok : s.Quiet (.timer a)) (moved : s.tsTimer.step a = some timer)
    (hother : ∀ w, a ≠ .worker w) : Safe { s with tsTimer := timer } := by
  rcases TimerSystem.pool_of_step moved with ⟨now, callback, late, rfl, at_⟩ | ⟨w, rfl, -⟩ | hkeeps
  · -- the tick thread posts, so the vector is still there
    have hvector : s.tsTcpConnections ≠ none := by
      intro hnone
      have hposts := hok hnone
      rw [at_] at hposts
      cases hposts
    exact safe_of_vector h.late hvector
  · exact absurd rfl (hother w)
  · exact h.keepsTasks hkeeps

/-- A worker inside a callback that is not to return finds the vector. -/
theorem Safe.vector (h : s.Safe) {w k : Nat}
    (at_ : s.tsTimer.tmThreadPool.tpPool[w]? = some (.inside k)) (hpc : s.timeouts w ≠ .ret) :
    s.tsTcpConnections ≠ none := by
  intro hnone
  have hahead := h.workers hnone w
  rw [ahead, at_] at hahead
  exact hpc (by simpa [aheadOfClean] using hahead)

/-- A step keeps the callbacks away from the destroyed vector. -/
theorem Safe.step (h : s.Safe) (hok : s.Quiet a) (hstep : Step s a t) : t.Safe := by
  cases hstep with
  | timer a timer makes moved =>
    cases a with
    | worker w => exact h.worker moved
    | _ => exact h.timer hok moved (by simp)
  | close w k at_ pc =>
    exact safe_of_vector h.late (h.vector at_ (by rw [pc]; decide))
  | doClean w k at_ pc =>
    have hvector := h.vector at_ (by rw [pc]; decide)
    obtain ⟨conns, hconns⟩ := Option.ne_none_iff_exists'.mp hvector
    rw [doClean_of_vector hconns]
    exact safe_of_vector h.late (Option.some_ne_none _)
  | emplaceBack c conns vector =>
    exact safe_of_vector h.late (Option.some_ne_none _)
  | destroy => exact ⟨h.late, h.tasks, h.workers⟩
  | destroyTimer a timer rest next own moved =>
    refine h.keepsTasks ?_
    rcases TimerSystem.pool_of_step moved with ⟨now, callback, late, rfl, -⟩ | ⟨w, rfl, -⟩ | hkeeps
    · rcases own with hown | hown <;> cases hown
    · rcases own with hown | hown <;> cases hown
    · exact hkeeps
  | destroyed m rest next other joined => exact ⟨h.late, h.tasks, h.workers⟩
  | destroyVector rest next =>
    have hidle : s.Idle := by
      apply hok
      rw [next]
      rfl
    exact ⟨h.late, fun _ ↦ hidle.1, fun _ ↦ hidle.workers⟩

/-- At the beginning the vector is there. -/
theorem safe_init (declared : List Member) (tcpConn : Nat → Nat) :
    (init declared tcpConn).Safe :=
  safe_of_vector rfl (Option.some_ne_none _)

/-! ### The order of declaration -/

/-- The timer goes before the vector. -/
def timerFirst : List Member → Bool
  | [] | .tsTimer :: _ => true
  | .tsTcpConnections :: _ => false
  | _ :: rest => timerFirst rest

/-- The vector outlives the timer: it is still there and the timer goes first, or the timer is
gone. -/
structure Outlives (s : Teardown) : Prop where
  late : s.late = []
  joined : s.tsTimer.Joined
  order : s.tsTcpConnections ≠ none ∧ timerFirst s.members = true ∨
    s.tsTimer.destructor = .returned

/-- A step of the timer leaves what outlives it. -/
theorem Outlives.timer (h : s.Outlives) {a : TimerAction} {timer : TimerSystem}
    (moved : s.tsTimer.step a = some timer) (timeouts : Nat → TimeoutPc) :
    Outlives { s with tsTimer := timer, timeouts := timeouts } := by
  refine ⟨h.late, h.joined.step moved, ?_⟩
  rcases h.order with horder | hreturned
  · exact Or.inl horder
  · exact absurd hreturned (TimerSystem.not_returned_of_step moved)

/-- Inside a callback the vector is still there. -/
theorem Outlives.vector (h : s.Outlives) {w k : Nat}
    (at_ : s.tsTimer.tmThreadPool.tpPool[w]? = some (.inside k)) :
    s.tsTcpConnections ≠ none ∧ timerFirst s.members = true := by
  rcases h.order with horder | hreturned
  · exact horder
  · have hjoined := h.joined
    rw [TimerSystem.Joined, hreturned] at hjoined
    cases hjoined w _ at_

/-- Every step. -/
theorem Outlives.step (h : s.Outlives) (hstep : Step s a t) : t.Outlives := by
  cases hstep with
  | timer a timer makes moved => exact h.timer moved _
  | close w k at_ pc => exact ⟨h.late, h.joined, h.order⟩
  | doClean w k at_ pc =>
    obtain ⟨hvector, horder⟩ := h.vector at_
    obtain ⟨conns, hconns⟩ := Option.ne_none_iff_exists'.mp hvector
    rw [doClean_of_vector hconns]
    exact ⟨h.late, h.joined, Or.inl ⟨Option.some_ne_none _, horder⟩⟩
  | emplaceBack c conns vector =>
    refine ⟨h.late, h.joined, ?_⟩
    rcases h.order with ⟨-, horder⟩ | hreturned
    · exact Or.inl ⟨Option.some_ne_none _, horder⟩
    · exact Or.inr hreturned
  | destroy => exact ⟨h.late, h.joined, h.order⟩
  | destroyTimer a timer rest next own moved => exact h.timer moved s.timeouts
  | destroyed m rest next other joined =>
    refine ⟨h.late, h.joined, ?_⟩
    rcases h.order with ⟨hvector, horder⟩ | hreturned
    · by_cases hm : m = .tsTimer
      · exact Or.inr (joined hm)
      · refine Or.inl ⟨hvector, ?_⟩
        rw [next] at horder
        cases m <;> first | exact horder | exact absurd rfl hm | exact absurd rfl other
    · exact Or.inr hreturned
  | destroyVector rest next =>
    refine ⟨h.late, h.joined, ?_⟩
    rcases h.order with ⟨-, horder⟩ | hreturned
    · rw [next] at horder
      cases horder
    · exact Or.inr hreturned

/-- Were the timer declared after the vector, no callback would come too late, whatever the
interleaving. -/
theorem late_eq_nil_of_timerFirst {declared : List Member} {tcpConn : Nat → Nat}
    (horder : timerFirst declared.reverse = true)
    (h : Reach Teardown.step (init declared tcpConn) s) : s.late = [] := by
  have houtlives : s.Outlives := by
    apply h.invariant
    · exact ⟨rfl, TimerSystem.joined_init, Or.inl ⟨Option.some_ne_none _, horder⟩⟩
    · intro u a t hu _ hstep
      exact hu.step (step_inversion hstep)
  exact houtlives.late

end Teardown

/-- If no timeout callback in the timer's pool has its `do_clean` before it when
`ts_tcp_connections` is destroyed, and the tick thread posts none from then on, no callback runs
`do_clean` on the destroyed vector, however the threads are interleaved. -/
theorem no_callback_cleans_destroyed_vector {tcpConn : Nat → Nat} {s : Teardown}
    (h : ReachBy Teardown.step Teardown.Quiet (.init tcpServerMembers tcpConn) s) :
    s.late = [] := by
  have hsafe : s.Safe := by
    apply h.invariant
    · exact Teardown.safe_init _ _
    · intro u a t hu hok hstep
      exact hu.step hok (Teardown.step_inversion hstep)
  exact hsafe.late

/-- One connection is added with a timeout of `msTime` milliseconds. -/
def addWithTimeout (msTime : Int) : List TeardownAction :=
  .timer .start :: (Timer.runCall 0 (.runAfter msTime false) 0).map .timer ++ [.emplaceBack 0]

/-- The members that are declared after the timer are destroyed. -/
def destroyUpToTimer : List TeardownAction := .destroy :: .replicate 6 .destroyMember

/-- The timer is destroyed while the tick thread waits for a timeout that is still to come, and the
workers, which have not begun yet, return. -/
def timeoutStillToCome : List TeardownAction :=
  addWithTimeout 6000 ++
    [.timer (.tick 0), .timer (.tick 0), .timer (.tick 0),
      .timer (.tickTop ⟨6000 * Timer.nsPerMs, 0, 0, 0, false, false, 6000⟩ 0), .timer (.tick 0)] ++
    destroyUpToTimer ++ .replicate 3 .destroyMember ++ [.timer (.tick 0), .timer (.tick 0)] ++
    .replicate 2 .destroyMember ++ [.timer (.worker 0), .timer (.worker 1)]

/-- That timeout does not come any more. -/
theorem pending_timeout_cleans_nothing :
    ∃ s, run Teardown.step (.init tcpServerMembers id) timeoutStillToCome = some s ∧
      s.late = [] := by
  have hrun : (run Teardown.step (.init tcpServerMembers id) timeoutStillToCome).isSome := by
    decide +kernel
  have hok : Admits Teardown.step Teardown.Quiet (.init tcpServerMembers id)
      timeoutStillToCome := by
    decide +kernel
  obtain ⟨s, hs⟩ := Option.isSome_iff_exists.mp hrun
  exact ⟨s, hs, no_callback_cleans_destroyed_vector (reachBy_of_run hs hok)⟩

/-- A timeout expires, a worker begins its callback, the vector is destroyed, and the callback
comes to `do_clean`. -/
def expiresBeforeDestruction : List TeardownAction :=
  addWithTimeout 0 ++ (Timer.expiry ⟨0, 0, 0, 0, false, false, 0⟩ 0).map .timer ++
    .replicate 7 (.timer (.worker 0)) ++ destroyUpToTimer ++ [.timeout 0, .timeout 0]

/-- The server's destructor does not wait for that callback before the vector is gone. -/
theorem running_callback_cleans_destroyed_vector :
    ¬ ∀ (tcpConn : Nat → Nat) (s : Teardown),
      Reach Teardown.step (.init tcpServerMembers tcpConn) s → s.late = [] := by
  intro hclaim
  have hrun : (run Teardown.step (.init tcpServerMembers id) expiresBeforeDestruction).map
      (fun s ↦ s.late) = some [0] := by
    decide +kernel
  obtain ⟨s, hs, hlate⟩ := Option.map_eq_some_iff.mp hrun
  rw [hclaim id s (reach_of_run hs)] at hlate
  cases hlate

end ConcurrentServer.Net
