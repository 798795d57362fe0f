import ConcurrentServer.Net.Epoll
import ConcurrentServer.Net.ServerTimer
import Mathlib.Data.List.Nodup
import Mathlib.Tactic.Simps.Basic

/-!
# The running server

`src/net/tcp_server.h:43–55`, `src/net/tcp_server.cpp:24–30, 60–78`,
`src/net/tcp_conn.cpp:26–113`, `src/net/acceptor.cpp:91–103`, `src/net/epoll.cpp:86–129`. A
started server as a transition system whose steps are single statements of the acceptor's
thread, of the thread of each connection loop, of the timer's tick thread and of its pool
workers, and calls of the kernel. Every map and vector operation is one step, and the walk of
`do_clean` over the list takes one for each comparison.

`ts_mutex` is left out: the acceptor's lock excludes nobody, since `do_clean` only declares a
function there and `update_conn_timeout_time` takes no lock. What an iterator does in a list
that another thread has changed is undefined in the source; here it is a position. User code is
the message callback; it may call `send` and `active_close` on any connection. The connected
callback, the peer address, the context and the input buffer steer nothing here and are left
out; of the output buffer there is the length. The acceptor's own loop and a shutdown are left
out.

Connections are named by the order in which they were accepted, connection loops by their
position in `ts_conn_loops`.
-/

namespace ConcurrentServer.Net
open ConcurrentServer.Base

/-- What `add_to_poller` is given: the wake-up read of a loop, and the lambdas that
`TcpConnection::add_task` and `TcpConnection::send` register. The second holds a shared
pointer, the third a plain one. -/
inductive Callback
  | evfdRead
  | doRead (c : Nat)
  | doWrite (c : Nat)
  deriving DecidableEq, Repr

/-- `TcpConnection`. The last two fields count the bodies of `do_close` that were entered,
and those that have come past `do_clean`. -/
structure Conn where
  tcLoop : Nat
  tcFd : Int
  tcTimerId : Int
  tcObufLength : Nat
  closes : Nat
  closed : Nat
  deriving DecidableEq, Repr

/-- The next step of `do_clean`; `src/net/tcp_server.cpp:69–78`. -/
inductive CleanPc
  /-- Before `ts_tcp_connections.begin()` and `end()`. -/
  | begin
  /-- Before `i!=e` and `tcp_conn==*i`, with the positions of the iterators. -/
  | scan (i e : Nat)
  /-- Before `ts_tcp_connections.erase(i)`. -/
  | erase (i : Nat)
  deriving DecidableEq, Repr

/-- The next statement of `do_close`; `src/net/tcp_conn.cpp:99–113`. -/
inductive ClosePc
  /-- `if (tc_close_cb) { tc_close_cb(); }` -/
  | enter
  /-- Reading the argument of `del_from_poller(tc_fd)`. -/
  | loadFd
  /-- `ep_event_map.erase(fd)` -/
  | delMap (fd : Int)
  /-- `ep_listen_fds.erase(fd)` and `epoll_ctl` on the epoller of loop `l`. -/
  | delCtl (l : Nat) (fd : Int)
  /-- `tc_ibuf.clear(); tc_obuf.clear();` -/
  | clearBufs
  /-- `int fd = tc_fd;` -/
  | takeFd
  /-- `tc_fd = -1;` -/
  | dropFd (fd : Int)
  /-- `close(fd);` -/
  | closeFd (fd : Int)
  /-- Inside `tc_server->do_clean(shared_from_this());`. -/
  | doClean (p : CleanPc)
  /-- The end of the body. -/
  | ret
  deriving DecidableEq, Repr

/-- The next statement of `add_new_tcp_conn`; `src/net/tcp_server.h:43–50`. -/
inductive AddPc
  | runAfter
  | setTimerId (id : Int)
  | emplaceBack
  deriving DecidableEq, Repr

/-- The next statement of `ts_message_cb`; `src/net/tcp_server.cpp:24–30`. -/
inductive MsgPc
  /-- Reading the argument of `ts_timer.cancel(tcp_conn->get_timer_id())`. -/
  | getTimerId
  | cancel (id : Int)
  | addNewTcpConn (p : AddPc)
  /-- Inside `ts_msg_cb`. -/
  | user
  /-- Inside `ts_msg_cb`, before the `epoll_ctl` of a `send`. -/
  | sendCtl (l : Nat) (op : CtlOp) (fd : Int) (ev : Mask)
  /-- The callback has returned and the argument of `tc_message_cb` is gone. -/
  | ret
  deriving DecidableEq, Repr

/-- The next statement of `do_accept` for one connection; `src/net/acceptor.cpp:91–103`. -/
inductive AcceptPc
  | idle
  /-- `conn->add_task()`: `epoll_add` up to its `epoll_ctl`. -/
  | addTask (c : Nat)
  | addTaskCtl (c : Nat) (l : Nat) (op : CtlOp) (fd : Int) (ev : Mask)
  | addNewTcpConn (c : Nat) (p : AddPc)
  deriving DecidableEq, Repr

/-- The connection that `do_accept` has made and not yet added. -/
def AcceptPc.conn : AcceptPc → Option Nat
  | .idle => none
  | .addTask c | .addTaskCtl c _ _ _ _ | .addNewTcpConn c _ => some c

/-- Where the thread of a connection loop is; `batch` are the ready events that
`execute_cbs` has not looked up yet. -/
inductive IoPc
  /-- In `epoll_wait`, or running the tasks of the loop. -/
  | poll
  | lookup (batch : List (Int × Mask))
  /-- In `do_read`, before the result of `read_from_fd`. -/
  | reading (c : Nat) (batch : List (Int × Mask))
  | message (c : Nat) (p : MsgPc) (batch : List (Int × Mask))
  /-- In `do_write`, before the test of its loop. -/
  | writing (c : Nat) (batch : List (Int × Mask))
  | writeCtl (c : Nat) (l : Nat) (op : CtlOp) (fd : Int) (ev : Mask)
      (batch : List (Int × Mask))
  /-- In `do_close`, called by `do_read` or `do_write`. -/
  | closing (c : Nat) (p : ClosePc) (batch : List (Int × Mask))
  /-- In `d->active_close()`, called by the message callback of `c`. -/
  | userClosing (c d : Nat) (p : ClosePc) (batch : List (Int × Mask))
  /-- In `epoll_del`, called by `execute_cbs` itself. -/
  | hup (fd : Int) (batch : List (Int × Mask))
  | hupCtl (fd : Int) (batch : List (Int × Mask))
  deriving DecidableEq, Repr

/-- The server, the loops it started and its timer; `fdOpen` tells which of the eventfds of the
loops and the sockets of connections are open. The listening socket, the reserve descriptor, the
epoll descriptors and the log's files are left out. -/
structure Server where
  tsThreadNum : Nat
  tsNextLoop : Int
  loops : Nat → Epoll Callback
  conns : Nat → Conn
  connCount : Nat
  tsTcpConnections : List Nat
  tsTimer : TimerState Nat ClosePc
  acceptor : AcceptPc
  io : Nat → IoPc
  fdOpen : Int → Bool
  /-- An assertion has failed and the process is gone. -/
  aborted : Bool

/-- What can happen next. -/
inductive ServerAction
  /-- `accept` returns a new descriptor. -/
  | accept (fd : Int)
  /-- The next statement of `do_accept`; `ok` is the outcome of its `epoll_ctl`. -/
  | acceptor (ok : Bool)
  /-- `epoll_wait` returns. -/
  | wait (l : Nat) (batch : List (Int × Mask))
  /-- `execute_cbs` looks up the next event, or has none left. -/
  | lookup (l : Nat)
  /-- `read_from_fd` returns −1 or 0. -/
  | readFails (l : Nat)
  /-- `read_from_fd` returns a positive number. -/
  | readData (l : Nat)
  /-- The next statement of `update_conn_timeout_time`. -/
  | message (l : Nat)
  /-- The message callback calls `d->send(data, len)`; `ok` is the outcome of `write2buf`. -/
  | send (l : Nat) (d : Nat) (len : Nat) (ok : Bool)
  /-- The message callback calls `d->active_close()`. -/
  | userClose (l : Nat) (d : Nat)
  /-- The message callback returns, and after it `do_read`. -/
  | endMessage (l : Nat)
  /-- `write2fd` returns −1. -/
  | writeFails (l : Nat)
  /-- `write2fd` returns `n > 0`. -/
  | writeSome (l : Nat) (n : Nat)
  /-- The buffer is empty or `write2fd` returns 0. -/
  | writeEnd (l : Nat)
  /-- The pending `epoll_ctl` of the loop's thread, with its outcome. -/
  | ctl (l : Nat) (ok : Bool)
  /-- The next statement of a `do_close` of the loop's thread. -/
  | close (l : Nat)
  /-- The map operation of `execute_cbs`' own `epoll_del`. -/
  | hup (l : Nat)
  /-- The tick thread pops node `k`. -/
  | expire (k : Nat)
  /-- The tick thread looks up the id of node `k`. -/
  | check (k : Nat)
  /-- The tick thread posts the callback of node `k`. -/
  | post (k : Nat)
  /-- A pool worker begins the callback of node `k`. -/
  | begin (k : Nat)
  /-- The next statement of the `do_close` that the callback of node `k` called. -/
  | timerClose (k : Nat)
  deriving DecidableEq, Repr

namespace Server

/-! ### Updates -/

/-- The thread of loop `l` moves on. -/
@[simps] def setIo (s : Server) (l : Nat) (pc : IoPc) : Server :=
  { s with io := Function.update s.io l pc }

/-- The acceptor's thread moves on. -/
@[simps] def setAcceptor (s : Server) (pc : AcceptPc) : Server := { s with acceptor := pc }

/-- Connection `c` changes. -/
@[simps] def modConn (s : Server) (c : Nat) (f : Conn → Conn) : Server :=
  { s with conns := Function.update s.conns c (f (s.conns c)) }

/-- The epoller of loop `l` changes. -/
@[simps] def modLoop (s : Server) (l : Nat) (f : Epoll Callback → Epoll Callback) : Server :=
  { s with loops := Function.update s.loops l (f (s.loops l)) }

/-- Node `k` of the timer moves on. -/
@[simps] def setStage (s : Server) (k : Nat) (stage : TimerStage ClosePc) : Server :=
  { s with tsTimer := s.tsTimer.setStage k stage }

/-- `close(fd)`: the kernel also takes the descriptor out of every interest set. -/
@[simps] def closeFd (s : Server) (fd : Int) : Server :=
  { s with
    fdOpen := Function.update s.fdOpen fd false
    loops := fun l ↦
      { s.loops l with interest := Function.update (s.loops l).interest fd none } }

/-! ### Shared statements -/

/-- The loop that `get_next_loop` returns; `src/net/tcp_server.cpp:60–67`. -/
def getNextLoop (s : Server) : Int := (s.tsNextLoop + 1) % s.tsThreadNum

/-- The effect of one statement of `add_new_tcp_conn`. -/
def addStmt (s : Server) (c : Nat) : AddPc → Server
  | .runAfter => { s with tsTimer := s.tsTimer.runAfter c }
  | .setTimerId id => s.modConn c fun tc ↦ { tc with tcTimerId := id }
  | .emplaceBack => { s with tsTcpConnections := s.tsTcpConnections ++ [c] }

/-- The statement of `add_new_tcp_conn` that comes next. -/
def addNext (s : Server) : AddPc → Option AddPc
  | .runAfter => some (.setTimerId s.tsTimer.nextId)
  | .setTimerId _ => some .emplaceBack
  | .emplaceBack => none

/-- The step of `do_clean` that comes next; it returns at the end of the list or after `erase`. -/
def cleanNext (s : Server) (c : Nat) : CleanPc → Option CleanPc
  | .begin => some (.scan 0 s.tsTcpConnections.length)
  | .scan i e =>
    if i = e then none
    else if s.tsTcpConnections[i]? = some c then some (.erase i)
    else some (.scan (i + 1) e)
  | .erase _ => none

/-- The list of connections after a step of `do_clean`. -/
def cleanList (s : Server) : CleanPc → List Nat
  | .begin | .scan _ _ => s.tsTcpConnections
  | .erase i => s.tsTcpConnections.eraseIdx i

/-- The effect of one step of `do_clean` of `c`. -/
def cleanStmt (s : Server) (c : Nat) (p : CleanPc) : Server :=
  { s with tsTcpConnections := s.cleanList p }.modConn c fun tc ↦
    { tc with closed := if s.cleanNext c p = none then tc.closed + 1 else tc.closed }

/-- The effect of one statement of `do_close` of `c`. -/
def closeStmt (s : Server) (c : Nat) : ClosePc → Server
  | .enter => s.modConn c fun tc ↦ { tc with closes := tc.closes + 1 }
  | .loadFd => s
  | .delMap fd => s.modLoop (s.conns c).tcLoop fun e ↦ epollDelMap e fd
  | .delCtl l fd => s.modLoop l fun e ↦ epollDelCtl e fd true
  | .clearBufs => s.modConn c fun tc ↦ { tc with tcObufLength := 0 }
  | .takeFd => s
  | .dropFd _ => s.modConn c fun tc ↦ { tc with tcFd := -1 }
  | .closeFd fd => s.closeFd fd
  | .doClean p => s.cleanStmt c p
  | .ret => s

/-- The statement of `do_close` of `c` that comes next. -/
def closeNext (s : Server) (c : Nat) : ClosePc → ClosePc
  | .enter => .loadFd
  | .loadFd => .delMap (s.conns c).tcFd
  | .delMap fd => .delCtl (s.conns c).tcLoop fd
  | .delCtl _ _ => .clearBufs
  | .clearBufs => .takeFd
  | .takeFd => .dropFd (s.conns c).tcFd
  | .dropFd fd => .closeFd fd
  | .closeFd _ => .doClean .begin
  | .doClean p => (s.cleanNext c p).elim .ret .doClean
  | .ret => .ret

/-- `add_to_poller(tc_fd, event, cb)` for connection `c`, up to its `epoll_ctl`. -/
def addToPoller (s : Server) (c : Nat) (event : Mask) (cb : Callback) : Server :=
  s.modLoop (s.conns c).tcLoop fun e ↦ epollAddMap e (s.conns c).tcFd event (some cb)

/-- The operation and the mask of the `epoll_ctl` that `add_to_poller` makes. -/
def addToPollerOp (s : Server) (c : Nat) (event : Mask) : CtlOp × Mask :=
  epollAddOp (s.loops (s.conns c).tcLoop) (s.conns c).tcFd event

/-- The pending `epoll_ctl` of an `epoll_add` on loop `l`. A descriptor that is not open
makes the call fail. -/
def addToPollerCtl (s : Server) (l : Nat) (op : CtlOp) (fd : Int) (ev : Mask) (ok : Bool) :
    Server :=
  s.modLoop l fun e ↦ epollAddCtl e op fd ev (ok && s.fdOpen fd)

/-- A connection made by `do_accept`; `src/net/acceptor.cpp:93–98`. -/
def newConn (s : Server) (fd : Int) : Conn where
  tcLoop := s.getNextLoop.toNat
  tcFd := fd
  tcTimerId := -1
  tcObufLength := 0
  closes := 0
  closed := 0

/-- `accept` has returned `fd` and `do_accept` has made the connection. -/
@[simps] def acceptConn (s : Server) (fd : Int) : Server :=
  { s with
    tsNextLoop := s.getNextLoop
    conns := Function.update s.conns s.connCount (s.newConn fd)
    connCount := s.connCount + 1
    acceptor := .addTask s.connCount
    fdOpen := Function.update s.fdOpen fd true }

/-- The kernel may report `events` for a descriptor: it is registered, and the events are
watched for or always reported. -/
def reportable (events : Mask) : Option Mask → Bool
  | none => false
  | some mask => events ≠ 0 && events &&& (mask ||| EPOLLERR ||| EPOLLHUP) = events

/-- `epoll_wait` on loop `l` may return the batch: descriptors registered now, each once;
`src/net/epoll.cpp:86–99`. -/
def Ready (s : Server) (l : Nat) (batch : List (Int × Mask)) : Prop :=
  batch.length ≤ 4096 ∧ (batch.map Prod.fst).Nodup ∧
    ∀ e ∈ batch, reportable e.2 ((s.loops l).interest e.1) = true

instance (s : Server) (l : Nat) (batch : List (Int × Mask)) : Decidable (s.Ready l batch) :=
  inferInstanceAs (Decidable (_ ∧ _ ∧ ∀ _ ∈ batch, _))

/-! ### The step function -/

/-- A statement of the acceptor's thread. -/
def acceptorStep (s : Server) (ok : Bool) : Option Server :=
  match s.acceptor with
  | .idle => none
  | .addTask c =>
    let l := (s.conns c).tcLoop
    let (op, ev) := s.addToPollerOp c EPOLLIN
    some ((s.addToPoller c EPOLLIN (.doRead c)).setAcceptor
      (.addTaskCtl c l op (s.conns c).tcFd ev))
  | .addTaskCtl c l op fd ev =>
    some ((s.addToPollerCtl l op fd ev ok).setAcceptor (.addNewTcpConn c .runAfter))
  | .addNewTcpConn c p =>
    some ((s.addStmt c p).setAcceptor ((s.addNext p).elim .idle (.addNewTcpConn c)))

/-- One look-up of `execute_cbs`; `src/net/epoll.cpp:101–129`. -/
def lookupStep (s : Server) (l : Nat) : List (Int × Mask) → Server
  | [] => s.setIo l .poll
  | (fd, events) :: batch =>
    match (s.loops l).epEventMap fd with
    | none => { s with aborted := true }
    | some entry =>
      match entry.dispatch events with
      | .nothing => s.setIo l (.lookup batch)
      | .delFd => s.setIo l (.hup fd batch)
      | .call .evfdRead => s.setIo l (.lookup batch)
      | .call (.doRead c) => s.setIo l (.reading c batch)
      | .call (.doWrite c) => s.setIo l (.writing c batch)

/-- A statement of `ts_message_cb` before its call of `ts_msg_cb`. -/
def messageStep (s : Server) (l : Nat) (c : Nat) (batch : List (Int × Mask)) :
    MsgPc → Option Server
  | .getTimerId => some (s.setIo l (.message c (.cancel (s.conns c).tcTimerId) batch))
  | .cancel id =>
    some ({ s with tsTimer := s.tsTimer.cancel id }.setIo l
      (.message c (.addNewTcpConn .runAfter) batch))
  | .addNewTcpConn p =>
    some ((s.addStmt c p).setIo l
      (.message c ((s.addNext p).elim .user .addNewTcpConn) batch))
  | .user | .sendCtl _ _ _ _ | .ret => none

/-- `d->send(data, len)` in the message callback of `c`, up to its `epoll_ctl`;
`src/net/tcp_conn.cpp:61–77`. -/
def sendStep (s : Server) (l : Nat) (c d : Nat) (len : Nat) (ok : Bool)
    (batch : List (Int × Mask)) : Server :=
  let put := s.modConn d fun tc ↦ { tc with tcObufLength := tc.tcObufLength + len }
  if ok = false then s
  else if (s.conns d).tcObufLength = 0 then
    let (op, ev) := s.addToPollerOp d EPOLLOUT
    (put.addToPoller d EPOLLOUT (.doWrite d)).setIo l
      (.message c (.sendCtl (s.conns d).tcLoop op (s.conns d).tcFd ev) batch)
  else put

/-- The end of `do_write`, up to its `epoll_ctl`; `src/net/tcp_conn.cpp:92–96`. -/
def writeEndStep (s : Server) (l : Nat) (c : Nat) (batch : List (Int × Mask)) : Server :=
  if (s.conns c).tcObufLength = 0 then
    let l' := (s.conns c).tcLoop
    let (e, call) := epollDelEventMap (s.loops l') (s.conns c).tcFd EPOLLOUT
    let s' := s.modLoop l' fun _ ↦ e
    match call with
    | none => s'.setIo l (.lookup batch)
    | some (op, ev) => s'.setIo l (.writeCtl c l' op (s.conns c).tcFd ev batch)
  else s.setIo l (.lookup batch)

/-- The pending `epoll_ctl` of the thread of loop `l`. An `EPOLL_CTL_DEL` of a registered
descriptor does not fail. -/
def ctlStep (s : Server) (l : Nat) (ok : Bool) : Option Server :=
  match s.io l with
  | .message c (.sendCtl l' op fd ev) batch =>
    some ((s.addToPollerCtl l' op fd ev ok).setIo l (.message c .user batch))
  | .writeCtl _ l' op fd ev batch =>
    some ((s.modLoop l' fun e ↦
      epollDelEventCtl e op fd ev (ok || op = .del)).setIo l (.lookup batch))
  | .hupCtl fd batch =>
    some ((s.modLoop l fun e ↦ epollDelCtl e fd true).setIo l (.lookup batch))
  | _ => none

/-- A statement of a `do_close` of the thread of loop `l`. -/
def closeStep (s : Server) (l : Nat) : Option Server :=
  match s.io l with
  | .closing c p batch =>
    if p = .ret then some (s.setIo l (.lookup batch))
    else some ((s.closeStmt c p).setIo l (.closing c (s.closeNext c p) batch))
  | .userClosing c d p batch =>
    if p = .ret then some (s.setIo l (.message c .user batch))
    else some ((s.closeStmt d p).setIo l (.userClosing c d (s.closeNext d p) batch))
  | _ => none

/-- A step of the timer's threads for node `tn`, the `k`-th. -/
def timerStep (s : Server) (k : Nat) (tn : TimerNode Nat ClosePc) :
    ServerAction → Option Server
  | .expire _ => if tn.stage = .queued then some (s.setStage k .popped) else none
  | .check _ =>
    if tn.stage = .popped then
      some (s.setStage k (if s.tsTimer.tmIdStateMap tn.tnId then .checked else .dropped))
    else none
  | .post _ => if tn.stage = .checked then some (s.setStage k .posted) else none
  | .begin _ =>
    if tn.stage = .posted ∧ s.tsTimer.busyWorkers < defaultTimerThreadPoolSize then
      some (s.setStage k (.running .enter))
    else none
  | .timerClose _ =>
    match tn.stage with
    | .running p =>
      if p = .ret then some (s.setStage k .done)
      else some ((s.closeStmt tn.job p).setStage k (.running (s.closeNext tn.job p)))
    | _ => none
  | _ => none

/-- The step function of a process that has not aborted. -/
def stepLive (s : Server) (a : ServerAction) : Option Server :=
  match a with
  | .accept fd =>
    if s.acceptor = .idle ∧ 0 ≤ fd ∧ s.fdOpen fd = false ∧ 0 < s.tsThreadNum then
      some (s.acceptConn fd)
    else none
  | .acceptor ok => s.acceptorStep ok
  | .wait l batch =>
    if s.io l = .poll ∧ l < s.tsThreadNum ∧ s.Ready l batch then
      some (s.setIo l (.lookup batch))
    else none
  | .lookup l =>
    match s.io l with
    | .lookup batch => some (s.lookupStep l batch)
    | _ => none
  | .readFails l =>
    match s.io l with
    | .reading c batch => some (s.setIo l (.closing c .enter batch))
    | _ => none
  | .readData l =>
    match s.io l with
    | .reading c batch => some (s.setIo l (.message c .getTimerId batch))
    | _ => none
  | .message l =>
    match s.io l with
    | .message c p batch => s.messageStep l c batch p
    | _ => none
  | .send l d len ok =>
    match s.io l with
    | .message c .user batch =>
      if d < s.connCount then some (s.sendStep l c d len ok batch) else none
    | _ => none
  | .userClose l d =>
    match s.io l with
    | .message c .user batch =>
      if d < s.connCount then some (s.setIo l (.userClosing c d .enter batch)) else none
    | _ => none
  | .endMessage l =>
    match s.io l with
    | .message c .user batch => some (s.setIo l (.message c .ret batch))
    | .message _ .ret batch => some (s.setIo l (.lookup batch))
    | _ => none
  | .writeFails l =>
    match s.io l with
    | .writing c batch =>
      if 0 < (s.conns c).tcObufLength then some (s.setIo l (.closing c .enter batch)) else none
    | _ => none
  | .writeSome l n =>
    match s.io l with
    | .writing c _ =>
      if 0 < n ∧ n ≤ (s.conns c).tcObufLength then
        some (s.modConn c fun tc ↦ { tc with tcObufLength := tc.tcObufLength - n })
      else none
    | _ => none
  | .writeEnd l =>
    match s.io l with
    | .writing c batch => some (s.writeEndStep l c batch)
    | _ => none
  | .ctl l ok => s.ctlStep l ok
  | .close l => s.closeStep l
  | .hup l =>
    match s.io l with
    | .hup fd batch => some ((s.modLoop l fun e ↦ epollDelMap e fd).setIo l (.hupCtl fd batch))
    | _ => none
  | .expire k | .check k | .post k | .begin k | .timerClose k =>
    match s.tsTimer.nodes k with
    | some tn => s.timerStep k tn a
    | none => none

/-- The step function. -/
def step (s : Server) (a : ServerAction) : Option Server :=
  if s.aborted then none else s.stepLive a

/-- The statement of `do_close`, and its connection, that an action executes. -/
def closeStatement (s : Server) : ServerAction → Option (Nat × ClosePc)
  | .close l =>
    match s.io l with
    | .closing c p _ => some (c, p)
    | .userClosing _ d p _ => some (d, p)
    | _ => none
  | .timerClose k =>
    match s.tsTimer.nodes k with
    | some ⟨_, c, .running p⟩ => some (c, p)
    | _ => none
  | _ => none

/-- The connection whose callback a look-up runs, or whose `active_close` is called. -/
def callsInto (s : Server) : ServerAction → Option Nat
  | .lookup l =>
    match s.io l with
    | .lookup ((fd, events) :: _) =>
      match ((s.loops l).epEventMap fd).map fun e : IoEvent Callback ↦ e.dispatch events with
      | some (.call (.doRead c)) => some c
      | some (.call (.doWrite c)) => some c
      | _ => none
    | _ => none
  | .userClose _ d => some d
  | _ => none

/-- The server after `start`: loop `l` watches its eventfd `elEvfd l`. -/
def init (tsThreadNum : Nat) (elEvfd : Nat → Int) : Server where
  tsThreadNum := tsThreadNum
  tsNextLoop := -1
  loops := fun l ↦
    if l < tsThreadNum then epollAdd .init (elEvfd l) EPOLLIN (some .evfdRead) true else .init
  conns := fun _ ↦ ⟨0, -1, -1, 0, 0, 0⟩
  connCount := 0
  tsTcpConnections := []
  tsTimer := .init
  acceptor := .idle
  io := fun _ ↦ .poll
  fdOpen := fun fd ↦ decide (∃ l < tsThreadNum, elEvfd l = fd)
  aborted := false

end Server

end ConcurrentServer.Net
