import ConcurrentServer.Net.OwnThread
import ConcurrentServer.Timer.Linearize

/-!
# The server over the statements of its timer

`src/net/tcp_server.h:43–55`, `src/timer/timer.h:60–158`, `src/threadpool/threadpool.h:73–98`. The
running server once more, with the timer that it really has: a thread that calls `run_after` or
`cancel` executes their statements one by one, beside the tick thread and the workers of the
timer's pool, one of which executes `do_close` when a callback runs. The timer has been started.
The destructors are left out.
-/

namespace ConcurrentServer.Net
open ConcurrentServer.Base
open ConcurrentServer.Pool (WorkerPc)
open ConcurrentServer.Timer (TimerSystem TimerAction)

/-- A call on the timer, by its number. -/
inductive TimerCall
  | runAfter (k : Nat)
  | cancel (c : Nat)
  deriving DecidableEq, Repr

/-- The server and its timer; the timer inside `server` is not used. -/
structure TimedServer where
  server : Server
  tsTimer : TimerSystem
  tsTcpConnTimoutMs : Int
  /-- The call on the timer that a thread of the server is inside. -/
  inside : ServerThread → Option TimerCall
  /-- The number of calls of `run_after`. -/
  runs : Nat
  /-- The number of calls of `cancel`. -/
  cancels : Nat
  /-- What the callback of call `k` captured. -/
  tcpConn : Nat → Nat
  /-- The next statement of the `do_close` that the callback of call `k` calls. -/
  timeouts : Nat → ClosePc

/-- What can happen next. -/
inductive TimedAction
  /-- A statement of a thread of the server that is no call on the timer. -/
  | server (a : ServerAction)
  /-- A thread of the server calls `run_after` or `cancel`. -/
  | call (th : ServerThread)
  /-- The next statement of that call; the clock reads `now`. -/
  | callStep (th : ServerThread) (now : Int)
  /-- The call has returned, and the thread goes on. -/
  | callEnd (th : ServerThread)
  /-- The next statement of the tick thread, or the end of its wait; the clock reads `now`. -/
  | tick (now : Int)
  /-- `tm_queue.top()` returns `n`; the clock reads `now`. -/
  | tickTop (n : Timer.TimerNode) (now : Int)
  /-- `notify_one` in `post_task` reaches the worker `notified`, if there is one. -/
  | tickNotify (notified : Option Nat)
  /-- The next statement of worker `w` of the timer's pool outside of the callbacks. -/
  | worker (w : Nat)
  /-- The next statement of the `do_close` that worker `w` of the timer's pool is inside. -/
  | timeout (w : Nat)
  deriving DecidableEq, Repr

/-- The statement of a thread of the server, if it belongs neither to `add_new_tcp_conn` nor to
`update_conn_timeout_time`. -/
def TimedAction.plain? : TimedAction → Option ServerAction
  | .server a => a.plain?
  | _ => none

namespace TimedServer

/-- The timer moves on. -/
@[simps] def setTimer (s : TimedServer) (tsTimer : TimerSystem) : TimedServer :=
  { s with tsTimer := tsTimer }

/-- A thread enters a call of `run_after`, whose callback captures connection `c`. -/
@[simps] def enterRunAfter (s : TimedServer) (th : ServerThread) (c : Nat) : TimedServer :=
  { s with
    inside := Function.update s.inside th (some (.runAfter s.runs))
    runs := s.runs + 1
    tcpConn := Function.update s.tcpConn s.runs c }

/-- A thread enters a call of `cancel`. -/
@[simps] def enterCancel (s : TimedServer) (th : ServerThread) : TimedServer :=
  { s with
    inside := Function.update s.inside th (some (.cancel s.cancels))
    cancels := s.cancels + 1 }

/-- A thread leaves its call with the result `id`. -/
@[simps] def leave (s : TimedServer) (th : ServerThread) (id : Int) : TimedServer :=
  { s with
    server := s.server.resume id th
    inside := Function.update s.inside th none }

/-- A thread that is inside no call on the timer makes one. -/
def callStart (s : TimedServer) (th : ServerThread) : Option TimedServer :=
  match s.server.request th with
  | some (.runAfter c) =>
    (s.tsTimer.step (.run s.runs (.runAfter s.tsTcpConnTimoutMs false))).map fun timer ↦
      (s.setTimer timer).enterRunAfter th c
  | some (.cancel id) =>
    (s.tsTimer.step (.cancel s.cancels id)).map fun timer ↦ (s.setTimer timer).enterCancel th
  | none => none

/-- The result of a call that has returned: the id that `run_after` returns, and, since `cancel`
returns nothing, its argument. -/
def result (s : TimedServer) : TimerCall → Option Int
  | .runAfter k =>
    match s.tsTimer.calls k with
    | .returned _ n => some n.tnId
    | _ => none
  | .cancel c =>
    match s.tsTimer.cancels c with
    | .returned id _ => some id
    | _ => none

/-- A thread goes on after its call on the timer. -/
def callEnd (s : TimedServer) (th : ServerThread) : Option TimedServer :=
  ((s.inside th).bind s.result).map (s.leave th)

/-- The call whose callback worker `w` of the timer's pool is inside. -/
def callback (s : TimedServer) (w : Nat) : Option Nat :=
  (s.tsTimer.tmThreadPool.tpPool[w]?).bind WorkerPc.inside?

/-- A statement of the `do_close` that the callback of call `k` calls. -/
@[simps] def closeStep (s : TimedServer) (k : Nat) : TimedServer :=
  { s with
    server := s.server.closeStmt (s.tcpConn k) (s.timeouts k)
    timeouts := Function.update s.timeouts k (s.server.closeNext (s.tcpConn k) (s.timeouts k)) }

/-- The statement of the timer that an action executes. -/
def timerAction (s : TimedServer) : TimedAction → Option TimerAction
  | .callStep th now =>
    match s.inside th with
    | some (.runAfter k) => some (.runStep k now)
    | some (.cancel c) => some (.cancelStep c)
    | none => none
  | .tick now => some (.tick now)
  | .tickTop n now => some (.tickTop n now)
  | .tickNotify notified => some (.tickNotify notified)
  | .worker w =>
    -- a callback returns when its `do_close` has
    if ∀ k ∈ s.callback w, s.timeouts k = .ret then some (.worker w) else none
  | .server _ | .call _ | .callEnd _ | .timeout _ => none

/-- The step function of a process that has not aborted. -/
def stepLive (s : TimedServer) (b : TimedAction) : Option TimedServer :=
  match b with
  | .server a =>
    match a.by? with
    | some th =>
      if s.inside th = none ∧ s.server.request th = none then
        (s.server.step a).map fun server ↦ { s with server := server }
      else none
    | none => none
  | .call th => if s.inside th = none then s.callStart th else none
  | .callEnd th => s.callEnd th
  | .timeout w =>
    (s.callback w).bind fun k ↦ if s.timeouts k = .ret then none else some (s.closeStep k)
  | .callStep _ _ | .tick _ | .tickTop _ _ | .tickNotify _ | .worker _ =>
    (s.timerAction b).bind fun a ↦ (s.tsTimer.step a).map s.setTimer

/-- The step function. -/
def step (s : TimedServer) (b : TimedAction) : Option TimedServer :=
  if s.server.aborted then none else s.stepLive b

/-- A started server whose idle time is `tsTcpConnTimoutMs`. -/
def init (tsThreadNum : Nat) (elEvfd : Nat → Int) (tsTcpConnTimoutMs : Int) : TimedServer where
  server := .init tsThreadNum elEvfd
  tsTimer := { TimerSystem.init with tick := .head }
  tsTcpConnTimoutMs := tsTcpConnTimoutMs
  inside := fun _ ↦ none
  runs := 0
  cancels := 0
  tcpConn := fun _ ↦ 0
  timeouts := fun _ ↦ .enter

/-- Fewer than 2³² − 1 timers have been made. -/
def FewTimers (s : TimedServer) (_ : TimedAction) : Prop := s.tsTimer.tmCount < 2 ^ 32 - 1

instance (s : TimedServer) (b : TimedAction) : Decidable (FewTimers s b) :=
  inferInstanceAs (Decidable (_ < _))

end TimedServer

end ConcurrentServer.Net
