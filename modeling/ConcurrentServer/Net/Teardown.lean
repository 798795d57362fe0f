import ConcurrentServer.Timer.Timer

/-!
# Destroying the server

`src/net/tcp_server.h:43–78`, `src/net/tcp_server.cpp:69–82`, `src/timer/timer.h:42–50`,
`src/net/tcp_conn.cpp:99–113`. The destructor of `TcpServer` is empty, so its members are
destroyed in the reverse order of their declaration. The timer's callbacks close connections and
end in `do_clean`, which goes through `ts_tcp_connections`. That vector is declared after
`ts_timer`: it is gone before the destructor of the timer stops the tick thread and joins the
workers. Calls on the timer come from other threads and begin before the destruction does.
-/

namespace ConcurrentServer.Net
open ConcurrentServer.Base
open ConcurrentServer.Pool (Threadpool)
open ConcurrentServer.Timer (TimerSystem TimerAction TickPc)

/-! ### The members and the threads -/

/-- The members of `TcpServer` from `ts_timer` on that have a destructor. -/
inductive Member
  | tsTimer
  | tsMutex
  | tsTcpConnections
  | tsConnectedCb
  | tsMsgCb
  | tsMessageCb
  | tsCloseCb
  deriving DecidableEq, Repr

/-- The order in which they are declared; `src/net/tcp_server.h:66–77`. -/
def tcpServerMembers : List Member :=
  [.tsTimer, .tsMutex, .tsTcpConnections, .tsConnectedCb, .tsMsgCb, .tsMessageCb, .tsCloseCb]

/-- Where a timeout callback is inside `active_close`, which is `do_close`. -/
inductive TimeoutPc
  /-- Before the statements of `do_close` up to `do_clean`. -/
  | close
  /-- Before `tc_server->do_clean(shared_from_this())`. -/
  | doClean
  /-- Before the return. -/
  | ret
  deriving DecidableEq, Repr

/-- A server that may be destroyed, with its timer. -/
structure Teardown where
  tsTimer : TimerSystem
  /-- Where the callback is that worker `w` is inside. -/
  timeouts : Nat → TimeoutPc
  /-- The connection that the callback of run call `k` closes. -/
  tcpConn : Nat → Nat
  /-- The vector, until it is destroyed. -/
  tsTcpConnections : Option (List Nat)
  /-- The members that are still there, in the order of their destruction. -/
  members : List Member
  /-- `~TcpServer` has been entered. -/
  destroying : Bool
  /-- The callbacks that have run `do_clean` on the destroyed vector. -/
  late : List Nat

/-- What can happen next. -/
inductive TeardownAction
  /-- A step of the timer, of a call on it or of its threads. -/
  | timer (a : TimerAction)
  /-- The next statement of the callback that worker `w` is inside. -/
  | timeout (w : Nat)
  /-- `add_new_tcp_conn` ends in `ts_tcp_connections.emplace_back`. -/
  | emplaceBack (c : Nat)
  /-- The destructor of the server begins. -/
  | destroy
  /-- The next step in the destruction of the members. -/
  | destroyMember
  deriving DecidableEq, Repr

namespace Teardown

/-- A server that has just been constructed, with its members declared in this order. -/
def init (declared : List Member) (tcpConn : Nat → Nat) : Teardown where
  tsTimer := .init
  timeouts := fun _ ↦ .close
  tcpConn := tcpConn
  tsTcpConnections := some []
  members := declared.reverse
  destroying := false
  late := []

/-- Who makes the step, and when: calls on the timer begin before the destruction, the destructor
of the timer is called by the one of the server, and a task returns when its callback has. -/
def makes (s : Teardown) : TimerAction → Bool
  | .start | .run _ _ | .cancel _ _ => !s.destroying
  | .destroy | .destructor => false
  | .worker w =>
    match s.tsTimer.tmThreadPool.tpPool[w]? with
    | some (.inside _) => s.timeouts w == .ret
    | _ => true
  | .runStep _ _ | .cancelStep _ | .tick _ | .tickTop _ _ | .tickNotify _ => true

/-- A worker that moves on has its next callback still before it. -/
def timeoutsAfter (s : Teardown) : TimerAction → Nat → TimeoutPc
  | .worker w => Function.update s.timeouts w .close
  | _ => s.timeouts

/-- `TcpServer::do_clean`, called by callback `k`; `src/net/tcp_server.cpp:69–78`. -/
def doClean (s : Teardown) (k : Nat) : Teardown :=
  match s.tsTcpConnections with
  | some conns => { s with tsTcpConnections := some (conns.erase (s.tcpConn k)) }
  | none => { s with late := s.late ++ [k] }

/-- A statement of the callback that worker `w` is inside; `src/net/tcp_conn.cpp:99–113`. -/
def timeoutStep (s : Teardown) (w : Nat) : Option Teardown :=
  match s.tsTimer.tmThreadPool.tpPool[w]?, s.timeouts w with
  | some (.inside _), .close =>
    some { s with timeouts := Function.update s.timeouts w .doClean }
  | some (.inside k), .doClean =>
    some { s.doClean k with timeouts := Function.update s.timeouts w .ret }
  | _, _ => none

/-- The next member is destroyed; the destructor of the timer takes several steps. -/
def destroyMemberStep (s : Teardown) : Option Teardown :=
  match s.members with
  | [] => none
  | .tsTimer :: rest =>
    match s.tsTimer.destructor with
    | .returned => some { s with members := rest }
    | .idle => (s.tsTimer.step .destroy).map fun timer ↦ { s with tsTimer := timer }
    | _ => (s.tsTimer.step .destructor).map fun timer ↦ { s with tsTimer := timer }
  | .tsTcpConnections :: rest => some { s with tsTcpConnections := none, members := rest }
  | _ :: rest => some { s with members := rest }

/-- The step function. -/
def step (s : Teardown) : TeardownAction → Option Teardown
  | .timer a =>
    if s.makes a then
      (s.tsTimer.step a).map fun timer ↦
        { s with tsTimer := timer, timeouts := s.timeoutsAfter a }
    else none
  | .timeout w => s.timeoutStep w
  | .emplaceBack c =>
    if s.destroying then none
    else s.tsTcpConnections.map fun conns ↦ { s with tsTcpConnections := some (conns ++ [c]) }
  | .destroy => if s.destroying then none else some { s with destroying := true }
  | .destroyMember => if s.destroying then s.destroyMemberStep else none

/-- The steps of the threads, one constructor for each kind. -/
inductive Step (s : Teardown) : TeardownAction → Teardown → Prop
  | timer (a : TimerAction) (timer : TimerSystem) (makes : s.makes a = true)
      (moved : s.tsTimer.step a = some timer) :
      Step s (.timer a) { s with tsTimer := timer, timeouts := s.timeoutsAfter a }
  | close (w k : Nat) (at_ : s.tsTimer.tmThreadPool.tpPool[w]? = some (.inside k))
      (pc : s.timeouts w = .close) :
      Step s (.timeout w) { s with timeouts := Function.update s.timeouts w .doClean }
  | doClean (w k : Nat) (at_ : s.tsTimer.tmThreadPool.tpPool[w]? = some (.inside k))
      (pc : s.timeouts w = .doClean) :
      Step s (.timeout w)
        { s.doClean k with timeouts := Function.update s.timeouts w .ret }
  | emplaceBack (c : Nat) (conns : List Nat) (vector : s.tsTcpConnections = some conns) :
      Step s (.emplaceBack c) { s with tsTcpConnections := some (conns ++ [c]) }
  | destroy : Step s .destroy { s with destroying := true }
  | destroyTimer (a : TimerAction) (timer : TimerSystem) (rest : List Member)
      (next : s.members = .tsTimer :: rest) (own : a = .destroy ∨ a = .destructor)
      (moved : s.tsTimer.step a = some timer) :
      Step s .destroyMember { s with tsTimer := timer }
  | destroyed (m : Member) (rest : List Member) (next : s.members = m :: rest)
      (other : m ≠ .tsTcpConnections)
      (joined : m = .tsTimer → s.tsTimer.destructor = .returned) :
      Step s .destroyMember { s with members := rest }
  | destroyVector (rest : List Member) (next : s.members = .tsTcpConnections :: rest) :
      Step s .destroyMember { s with tsTcpConnections := none, members := rest }

variable {s t : Teardown} {a : TeardownAction}

/-- Every step is one of these. -/
theorem step_inversion (h : s.step a = some t) : Step s a t := by
  cases a with
  | timer a =>
    simp only [step] at h
    split at h
    · next hmakes =>
      obtain ⟨timer, htimer, rfl⟩ := Option.map_eq_some_iff.mp h
      exact .timer a timer hmakes htimer
    · cases h
  | timeout w =>
    simp only [step, timeoutStep] at h
    split at h
    · next k hat hpc =>
      cases h
      exact .close w k hat hpc
    · next k hat hpc =>
      cases h
      exact .doClean w k hat hpc
    · cases h
  | emplaceBack c =>
    simp only [step] at h
    split at h
    · cases h
    · obtain ⟨conns, hconns, rfl⟩ := Option.map_eq_some_iff.mp h
      exact .emplaceBack c conns hconns
  | destroy =>
    simp only [step] at h
    split at h
    · cases h
    · cases h
      exact .destroy
  | destroyMember =>
    simp only [step] at h
    split at h
    · simp only [destroyMemberStep] at h
      split at h
      · cases h
      · next rest hnext =>
        split at h
        · next hreturned =>
          cases h
          refine .destroyed _ rest hnext (by decide) ?_
          intro _
          exact hreturned
        · obtain ⟨timer, htimer, rfl⟩ := Option.map_eq_some_iff.mp h
          exact .destroyTimer _ timer rest hnext (Or.inl rfl) htimer
        · obtain ⟨timer, htimer, rfl⟩ := Option.map_eq_some_iff.mp h
          exact .destroyTimer _ timer rest hnext (Or.inr rfl) htimer
      · next rest hnext =>
        cases h
        exact .destroyVector rest hnext
      · next m rest htimer hvector hnext =>
        cases h
        refine .destroyed m rest hnext hvector ?_
        intro heq
        exact absurd heq htimer
    · cases h

end Teardown

end ConcurrentServer.Net
