import ConcurrentServer.Base.Embed
import ConcurrentServer.Memory.DataBuf

/-!
# Connections that answer

`src/net/tcp_conn.cpp:26–31, 45–113` over `src/memory/data_buf.cpp`, with the message callbacks of
`src/net/tests/echo_server.cpp:28–38` and `src/net/tests/http_for_bench.cpp:28–41`. A connection
owns `tc_ibuf`, `tc_obuf` and `tc_fd`; all connections share the pool, and their statements come in
any order. The calls of one connection do not overlap, as those that its loop makes do not; a
time-out that closes the connection during one of them is the subject of `Net.CloseOnce`. The
connected and the close callback only print, and `update_conn_timeout_time` touches no buffer.
-/

namespace ConcurrentServer.Net
open ConcurrentServer.Base ConcurrentServer.Memory

/-- What the statements of a connection do. -/
inductive ConnEffect
  /-- A statement of `tc_ibuf`. -/
  | ibuf (e : Effect)
  /-- A statement of `tc_obuf`, or `add_to_poller` and `del_from_poller` with an event. -/
  | obuf (e : Effect)
  /-- Reading `tc_fd`. -/
  | tcFd
  /-- `tc_fd = fd` -/
  | setTcFd (fd : Int)
  /-- `tc_loop->del_from_poller(fd)` -/
  | delFd (fd : Int)
  /-- `close(fd)` -/
  | close (fd : Int)
  /-- `tc_server->do_clean(shared_from_this())` -/
  | doClean

/-- What an effect answers. -/
def ConnEffect.Result : ConnEffect → Type
  | .ibuf e | .obuf e => e.Result
  | .tcFd => Int
  | .setTcFd _ | .delFd _ | .close _ | .doClean => Unit

/-- Programs of connections. -/
abbrev ConnProg := Prog ConnEffect ConnEffect.Result

/-- `InputBuffer::get_from_buf` and `length`, as the callbacks copy them into a string. -/
def message : BufProg (List UInt8) := do
  match ← BufProg.dataBuf with
  | some buf => return (← BufProg.load buf).bytes
  | none => return []

namespace ConnProg

/-! ### Effects -/

def ibuf {α : Type} (p : BufProg α) : ConnProg α := p.embed ConnEffect.ibuf fun _ r ↦ r
def obuf {α : Type} (p : BufProg α) : ConnProg α := p.embed ConnEffect.obuf fun _ r ↦ r
def tcFd : ConnProg Int := Prog.perform ConnEffect.tcFd
def setTcFd (fd : Int) : ConnProg Unit := Prog.perform (ConnEffect.setTcFd fd)
def delFd (fd : Int) : ConnProg Unit := Prog.perform (ConnEffect.delFd fd)
def close (fd : Int) : ConnProg Unit := Prog.perform (ConnEffect.close fd)
def doClean : ConnProg Unit := Prog.perform ConnEffect.doClean

/-! ### TcpConnection -/

/-- `TcpConnection::add_task`. -/
def addTask : ConnProg Unit := do obuf (BufProg.addTask (← tcFd))

/-- `TcpConnection::do_close`, which `active_close` calls too. -/
def doClose : ConnProg Unit := do
  delFd (← tcFd)
  ibuf BufProg.clear
  obuf BufProg.clear
  let fd ← tcFd
  setTcFd (-1)
  close fd
  doClean

/-- `TcpConnection::send`. -/
def send (data : List UInt8) : ConnProg Bool := do obuf (BufProg.send (← tcFd) data)

/-- `EchoServer::echo_message_cb`, where the message `msg_str` is answered with `reply msg_str`:
what `send` returns. -/
def messageCb (reply : List UInt8 → List UInt8) : ConnProg Bool := do
  let msgStr ← ibuf message
  ibuf (BufProg.pop (← ibuf BufProg.length))
  ibuf BufProg.adjust
  send (reply msgStr)

/-- `TcpConnection::do_read`: `none` where it closes the connection, else whether the callback's
`send` has taken the reply. -/
def doRead (reply : List UInt8 → List UInt8) : ConnProg (Option Bool) := do
  let ret ← ibuf (BufProg.readFromFd (← tcFd))
  if ret = -1 then
    doClose
    return none
  else if ret = 0 then
    doClose
    return none
  else
    return some (← messageCb reply)

/-- `TcpConnection::do_write`. -/
def doWrite : ConnProg Unit := do
  if ← obuf (BufProg.doWriteLoop (← tcFd)) then
    doClose
  else if (← obuf BufProg.length) = 0 then
    obuf (BufProg.delFromPoller (← tcFd) EPOLLOUT)

end ConnProg

/-- The reply of `echo_server.cpp`. -/
def echoReply (msgStr : List UInt8) : List UInt8 := msgStr

/-- The reply of `http_for_bench.cpp`. -/
def httpReply (_ : List UInt8) : List UInt8 :=
  ("HTTP/1.1 200 OK\r\n\r\n" ++
    "<html><head><title>my title</title><body>Hello World!</body></head></html>").toUTF8.toList

/-! ### The connections of a server -/

/-- What a connection is called for. -/
inductive ConnCall
  | addTask
  | doRead
  | doWrite
  | activeClose
  deriving DecidableEq, Repr

/-- What a call returns. -/
def ConnCall.Ret : ConnCall → Type
  | .doRead => Option Bool
  | .addTask | .doWrite | .activeClose => Unit

/-- The body of a call. -/
def ConnCall.body (reply : List UInt8 → List UInt8) : (c : ConnCall) → ConnProg c.Ret
  | .addTask => ConnProg.addTask
  | .doRead => ConnProg.doRead reply
  | .doWrite => ConnProg.doWrite
  | .activeClose => ConnProg.doClose

/-- The buffers of all connections, the descriptor of each, the descriptors that each has passed to
`close`, and how often each has been cleaned from the server's list. -/
structure ConnWorld where
  bufs : World
  tcFd : Nat → Int
  released : Nat → List Int
  cleaned : Nat → Nat

namespace ConnWorld

/-- What an effect of connection `n` does. -/
def exec (n : Nat) :
    (e : ConnEffect) → Input → ConnWorld → Option (Outcome Halt e.Result ConnWorld)
  | .ibuf e, inp, w =>
    (w.bufs.exec (.input n) e inp).map (Outcome.map fun bufs ↦ { w with bufs := bufs })
  | .obuf e, inp, w =>
    (w.bufs.exec (.output n) e inp).map (Outcome.map fun bufs ↦ { w with bufs := bufs })
  | .tcFd, _, w => some (.value (w.tcFd n) w)
  | .setTcFd fd, _, w => some (.value () { w with tcFd := Function.update w.tcFd n fd })
  | .delFd fd, _, w =>
    some (.value () { w with bufs := w.bufs.record (.output n) fun tr ↦ tr.poll (.del fd true) })
  | .close fd, _, w =>
    some (.value () { w with released := Function.update w.released n (w.released n ++ [fd]) })
  | .doClean, _, w =>
    some (.value () { w with cleaned := Function.update w.cleaned n (w.cleaned n + 1) })

/-- Connections that `do_accept` has made with the descriptors `fds`. -/
def init (fds : Nat → Int) (block : Nat → Int → UInt8) : ConnWorld where
  bufs := .init block
  tcFd := fds
  released := fun _ ↦ []
  cleaned := fun _ ↦ 0

end ConnWorld

/-- Connections that answer each message with `reply`. -/
def connections (reply : List UInt8 → List UInt8) :
    ObjectSystem Nat ConnEffect ConnEffect.Result Input Halt ConnCall ConnCall.Ret ConnWorld where
  exec := ConnWorld.exec
  offers := fun _ _ ↦ true
  body := fun _ ↦ ConnCall.body reply

/-- A state of the connections. -/
abbrev ConnState :=
  ObjectState Nat ConnEffect ConnEffect.Result Halt ConnCall ConnCall.Ret ConnWorld

/-- A step of a connection. -/
abbrev ConnAction := ObjectAction Nat Input ConnCall

/-- What a connection has returned from. -/
abbrev ConnLog := List ((c : ConnCall) × c.Ret)

/-- Accepted connections, none of which has been called. -/
def ConnState.init (fds : Nat → Int) (block : Nat → Int → UInt8) : ConnState where
  mem := .init fds block
  thread := fun _ ↦ .idle
  log := fun _ ↦ []
  halted := .none

/-- The kernel keeps its promises: `FIONREAD` reports no negative number; `read` delivers nothing
from −1 and no more than was asked for; `write` accepts no more than it was given. -/
def Promised : ConnEffect → Input → Prop
  | .ibuf (.fionread _), .fionread (some reported) => 0 ≤ int32 reported
  | .ibuf (.read fd m), .read (.bytes values) => fd ≠ -1 ∧ (0 ≤ m → values.length ≤ m)
  | .obuf (.write _ values), .write (.count k) => k ≤ values.length
  | _, _ => True

instance (e : ConnEffect) (inp : Input) : Decidable (Promised e inp) := by
  unfold Promised
  split <;> infer_instance

/-- The kernel keeps its promises in this step. -/
def KernelKeeps (s : ConnState) : ConnAction → Prop
  | .perform n inp =>
    match s.thread n with
    | .running _ (.op e _) => Promised e inp
    | _ => True
  | _ => True

instance (s : ConnState) : DecidablePred (KernelKeeps s)
  | .perform n inp => by
    unfold KernelKeeps
    dsimp only
    split <;> infer_instance
  | .start _ _ | .loop _ | .finish _ => inferInstanceAs (Decidable True)

end ConcurrentServer.Net
