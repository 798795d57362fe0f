import ConcurrentServer.Base.Objects
import ConcurrentServer.Memory.Mempool
import ConcurrentServer.Net.Epoll

/-!
# Data buffers

`src/memory/data_buf.h`, `src/memory/data_buf.cpp`. The operations of `InputBuffer` and
`OutputBuffer` as programs over their effects: reading and setting `data_buf`, reading and
changing a chunk, the calls of the pool, system calls and assertions. Bytes that the caller
passes are a list, their number the `len` beside the pointer.
-/

namespace ConcurrentServer.Memory
open ConcurrentServer.Base ConcurrentServer.Net

/-- What a call of `read` returns: −1 with `EINTR`, −1 with another error, or bytes. -/
inductive ReadResult
  | eintr
  | error
  | bytes (values : List UInt8)
  deriving DecidableEq, Repr

/-- What a call of `write` returns: −1 with `EINTR`, with `EAGAIN` or with another error, or a
number of bytes. -/
inductive WriteResult
  | eintr
  | eagain
  | error
  | count (n : Nat)
  deriving DecidableEq, Repr

/-- The lambdas that `TcpConnection::add_task` and `TcpConnection::send` register. -/
inductive PollCallback
  | doRead
  | doWrite
  deriving DecidableEq, Repr

/-- What the statements of a buffer do; the last two are the calls that `TcpConnection` makes
of its loop's epoller, with an `epoll_ctl` that succeeds. -/
inductive Effect
  /-- Reading `data_buf`. -/
  | dataBuf
  /-- `data_buf = p` -/
  | setDataBuf (p : Option Nat)
  /-- Reading `*a`. -/
  | load (a : Nat)
  /-- Changing `*a`. -/
  | modify (a : Nat) (f : Chunk → Chunk)
  /-- `Mempool::get_instance().alloc_chunk(n)` -/
  | allocChunk (n : Int)
  /-- `Mempool::get_instance().retrieve(a)` -/
  | retrieve (a : Nat)
  | assert (b : Bool)
  /-- `ioctl(fd, FIONREAD, &n)` -/
  | fionread (fd : Int)
  /-- `read(fd, …, n)` -/
  | read (fd : Int) (n : Int)
  /-- `write(fd, …, …)` of these bytes. -/
  | write (fd : Int) (values : List UInt8)
  /-- `tc_loop->add_to_poller(fd, event, cb)` -/
  | addToPoller (fd : Int) (event : Mask) (cb : PollCallback)
  /-- `tc_loop->del_from_poller(fd, event)` -/
  | delFromPoller (fd : Int) (event : Mask)

/-- What an effect answers. -/
def Effect.Result : Effect → Type
  | .dataBuf | .allocChunk _ => Option Nat
  | .load _ => Chunk
  | .fionread _ => Option Int
  | .read _ _ => ReadResult
  | .write _ _ => WriteResult
  | _ => Unit

/-- Programs of buffers. -/
abbrev BufProg := Prog Effect Effect.Result

namespace BufProg

/-! ### Effects -/

def dataBuf : BufProg (Option Nat) := Prog.perform Effect.dataBuf
def setDataBuf (p : Option Nat) : BufProg Unit := Prog.perform (Effect.setDataBuf p)
def load (a : Nat) : BufProg Chunk := Prog.perform (Effect.load a)
def modify (a : Nat) (f : Chunk → Chunk) : BufProg Unit := Prog.perform (Effect.modify a f)
def allocChunk (n : Int) : BufProg (Option Nat) := Prog.perform (Effect.allocChunk n)
def retrieve (a : Nat) : BufProg Unit := Prog.perform (Effect.retrieve a)
def assert (b : Bool) : BufProg Unit := Prog.perform (Effect.assert b)
def fionread (fd : Int) : BufProg (Option Int) := Prog.perform (Effect.fionread fd)
def read (fd n : Int) : BufProg ReadResult := Prog.perform (Effect.read fd n)
def write (fd : Int) (values : List UInt8) : BufProg WriteResult :=
  Prog.perform (Effect.write fd values)

/-- The chunk that `data_buf` points to; following the null pointer ends the process. -/
def chunkPtr : BufProg Nat := do
  match ← dataBuf with
  | some buf => return buf
  | none =>
    assert false
    return 0

/-! ### BufferBase -/

/-- `BufferBase::length`. -/
def length : BufProg Int := do
  match ← dataBuf with
  | some buf => return (← load buf).length
  | none => return 0

/-- `BufferBase::pop`. -/
def pop (len : Int) : BufProg Unit := do
  let buf ← chunkPtr
  assert (len ≤ (← load buf).length)
  modify buf (·.pop len)
  if (← load buf).length = 0 then
    retrieve buf
    setDataBuf none

/-- `BufferBase::clear`, which is also the destructor. -/
def clear : BufProg Unit := do
  match ← dataBuf with
  | none => return
  | some buf =>
    retrieve buf
    setDataBuf none

/-- The part that `read_from_fd` and `write2buf` share: a chunk with room for `need` more bytes,
or `false` where they return −1. -/
def reserve (need : Int) : BufProg Bool := do
  match ← dataBuf with
  | none =>
    let buf ← allocChunk need
    setDataBuf buf
    return buf.isSome
  | some buf =>
    let chunk ← load buf
    assert (chunk.head = 0)
    if int32 (chunk.capacity - chunk.length) < need then
      match ← allocChunk (int32 (need + chunk.length)) with
      | none => return false
      | some newBuf =>
        let other ← load buf
        modify newBuf (·.copy other)
        retrieve buf
        setDataBuf newBuf
        return true
    else
      return true

/-! ### InputBuffer -/

/-- The `read` of `read_from_fd`, repeated while it is interrupted; `none` is −1. -/
def readLoop (fd needRead : Int) : BufProg (Option (List UInt8)) :=
  Prog.repeatUntil do
    match ← read fd (if needRead = 0 then 4096 else needRead) with
    | .eintr => return none
    | .error => return some none
    | .bytes values => return some (some values)

/-- `InputBuffer::read_from_fd`. -/
def readFromFd (fd : Int) : BufProg Int := do
  match ← fionread fd with
  | none => return -1
  | some needRead =>
    if ← reserve needRead then
      let buf ← chunkPtr
      match ← readLoop fd needRead with
      | none => return -1
      | some values =>
        modify buf (·.storeBehind values)
        let alreadyRead := int32 values.length
        if 0 < alreadyRead then
          assert (needRead = 0 ∨ alreadyRead = needRead)
          modify buf (·.grow alreadyRead)
        return alreadyRead
    else
      return -1

/-- `InputBuffer::adjust`. -/
def adjust : BufProg Unit := do
  match ← dataBuf with
  | none => return
  | some buf => modify buf (·.adjust)

/-! ### OutputBuffer -/

/-- `OutputBuffer::write2buf`. -/
def write2buf (values : List UInt8) : BufProg Int := do
  if ← reserve values.length then
    let buf ← chunkPtr
    modify buf (·.storeBehind values)
    modify buf (·.grow values.length)
    return 0
  else
    return -1

/-- The `write` of `write2fd`, repeated while it is interrupted. -/
def writeLoop (fd : Int) (values : List UInt8) : BufProg WriteResult :=
  Prog.repeatUntil do
    match ← write fd values with
    | .eintr => return none
    | result => return some result

/-- `OutputBuffer::write2fd`. -/
def write2fd (fd : Int) : BufProg Int := do
  let buf ← chunkPtr
  let chunk ← load buf
  assert (chunk.head = 0)
  match ← writeLoop fd (window chunk.data 0 chunk.length) with
  | .count n =>
    if 0 < int32 n then
      modify buf (·.pop (int32 n))
      modify buf (·.adjust)
    return int32 n
  | .eagain => return 0
  | _ => return -1

/-! ### TcpConnection

`src/net/tcp_conn.cpp:26–31, 61–113`, as far as the output buffer and the epoller are
concerned. -/

def addToPoller (fd : Int) (event : Mask) (cb : PollCallback) : BufProg Unit :=
  Prog.perform (Effect.addToPoller fd event cb)
def delFromPoller (fd : Int) (event : Mask) : BufProg Unit :=
  Prog.perform (Effect.delFromPoller fd event)

/-- `TcpConnection::add_task`; the task that it posts before runs the connected callback. -/
def addTask (fd : Int) : BufProg Unit := addToPoller fd EPOLLIN .doRead

/-- `TcpConnection::send`. -/
def send (fd : Int) (values : List UInt8) : BufProg Bool := do
  let shouldActivateEpollout := (← length) = 0
  let ret ← write2buf values
  if ret ≠ 0 then
    return false
  else
    if shouldActivateEpollout then
      addToPoller fd EPOLLOUT .doWrite
    return true

/-- The loop of `TcpConnection::do_write`; `true` where it goes on to `do_close`. -/
def doWriteLoop (fd : Int) : BufProg Bool :=
  Prog.repeatUntil do
    if (← length) = 0 then
      return some false
    else
      let ret ← write2fd fd
      if ret = -1 then
        return some true
      else if ret = 0 then
        return some false
      else
        return none

/-- `TcpConnection::do_write`; `true` where it has closed the connection. -/
def doWrite (fd : Int) : BufProg Bool := do
  if ← doWriteLoop fd then
    clear
    return true
  else
    if (← length) = 0 then
      delFromPoller fd EPOLLOUT
    return false

end BufProg

/-! ### The buffers of a server -/

/-- A buffer; a connection has one of each kind. -/
inductive BufferId
  | input (n : Nat)
  | output (n : Nat)
  deriving DecidableEq, Repr

/-- What a buffer is called for, by its user or by its connection. -/
inductive Call
  | readFromFd (fd : Int)
  | adjust
  | write2buf (values : List UInt8)
  | write2fd (fd : Int)
  | pop (len : Int)
  /-- Also the destructor, and what `do_close` does with the buffer. -/
  | clear
  | addTask (fd : Int)
  | send (fd : Int) (values : List UInt8)
  | doWrite (fd : Int)
  deriving DecidableEq, Repr

/-- What a call returns. -/
def Call.Ret : Call → Type
  | .readFromFd _ | .write2buf _ | .write2fd _ => Int
  | .send _ _ | .doWrite _ => Bool
  | .adjust | .pop _ | .clear | .addTask _ => Unit

/-- The body of a call. -/
def Call.body : (c : Call) → BufProg c.Ret
  | .readFromFd fd => BufProg.readFromFd fd
  | .adjust => BufProg.adjust
  | .write2buf values => BufProg.write2buf values
  | .write2fd fd => BufProg.write2fd fd
  | .pop len => BufProg.pop len
  | .clear => BufProg.clear
  | .addTask fd => BufProg.addTask fd
  | .send fd values => BufProg.send fd values
  | .doWrite fd => BufProg.doWrite fd

/-- The calls that a buffer offers. -/
def BufferId.offers : BufferId → Call → Bool
  | .input _, .readFromFd _ | .input _, .adjust => true
  | .output _, .write2buf _ | .output _, .write2fd _ => true
  | .output _, .addTask _ | .output _, .send _ _ | .output _, .doWrite _ => true
  | _, .pop _ | _, .clear => true
  | _, _ => false

/-- What the environment contributes to an effect. -/
inductive Input
  | none
  /-- Whether there is memory for a new chunk, and what is in it. -/
  | alloc (newOk : Bool) (block : Int → UInt8)
  /-- −1, or the number of readable bytes. -/
  | fionread (result : Option Int)
  | read (result : ReadResult)
  | write (result : WriteResult)

/-- What has gone into a buffer and out of it, as the system calls tell: what each `read` that has
not failed has delivered, the bytes that `write` has accepted, and the calls of the epoller. -/
structure Trace where
  delivered : List (List UInt8)
  accepted : List UInt8
  calls : List (EpollCall PollCallback)

/-- What a call of `read` delivers, if it does not fail. -/
def ReadResult.delivers : ReadResult → List (List UInt8)
  | .bytes values => [values]
  | .eintr | .error => []

/-- `read` has answered. -/
def Trace.read (tr : Trace) (result : ReadResult) : Trace :=
  { tr with delivered := tr.delivered ++ result.delivers }

/-- `write` has accepted more. -/
def Trace.write (tr : Trace) (values : List UInt8) : Trace :=
  { tr with accepted := tr.accepted ++ values }

/-- The epoller has been called. -/
def Trace.poll (tr : Trace) (c : EpollCall PollCallback) : Trace :=
  { tr with calls := tr.calls ++ [c] }

@[simp] theorem Trace.write_nil (tr : Trace) : tr.write [] = tr := by
  simp [Trace.write]

/-- A `read` that fails delivers nothing. -/
theorem Trace.read_of_delivers_nil (tr : Trace) {result : ReadResult}
    (h : result.delivers = []) : tr.read result = tr := by
  simp [Trace.read, h]

/-- The pool, and for every buffer its `data_buf` and what has gone into it and out of it. -/
structure World where
  pool : Mempool
  dataBuf : BufferId → Option Nat
  trace : BufferId → Trace

/-- The bytes of `values` that a call of `write` accepts. -/
def WriteResult.taken (values : List UInt8) : WriteResult → List UInt8
  | .count n => values.take n
  | _ => []

namespace World

/-- More has gone into buffer `i` or out of it. -/
def record (w : World) (i : BufferId) (f : Trace → Trace) : World :=
  { w with trace := Function.update w.trace i (f (w.trace i)) }

/-- What an effect of buffer `i` does. -/
def exec (i : BufferId) : (e : Effect) → Input → World → Option (Outcome Halt e.Result World)
  | .dataBuf, _, w => some (.value (w.dataBuf i) w)
  | .setDataBuf p, _, w => some (.value () { w with dataBuf := Function.update w.dataBuf i p })
  | .load a, _, w => some (.value (w.pool.chunks a) w)
  | .modify a f, _, w => some (.value () { w with pool := w.pool.modify a f })
  | .allocChunk n, .alloc newOk block, w =>
    match w.pool.allocChunk n newOk block with
    | .ok (p, pool) => some (.value p { w with pool := pool })
    | .error h => some (.halt h)
  | .retrieve a, _, w =>
    match w.pool.retrieve a with
    | .ok pool => some (.value () { w with pool := pool })
    | .error h => some (.halt h)
  | .assert b, _, w => some (if b then .value () w else .halt .assertion)
  | .fionread _, .fionread result, w => some (.value (result.map int32) w)
  | .read _ _, .read result, w => some (.value result (w.record i fun tr ↦ tr.read result))
  | .write _ values, .write result, w =>
    some (.value result (w.record i fun tr ↦ tr.write (result.taken values)))
  | .addToPoller fd event cb, _, w =>
    some (.value () (w.record i fun tr ↦ tr.poll (.add fd event cb true)))
  | .delFromPoller fd event, _, w =>
    some (.value () (w.record i fun tr ↦ tr.poll (.delEvent fd event true)))
  | _, _, _ => none

/-- `BufferBase::length` of a buffer. -/
def length (w : World) (i : BufferId) : Int :=
  ((w.dataBuf i).map fun a ↦ (w.pool.chunks a).length).getD 0

/-- The bytes that a buffer holds: `length()` of them at `data + head`. -/
def bytes (w : World) (i : BufferId) : List UInt8 :=
  ((w.dataBuf i).map fun a ↦ (w.pool.chunks a).bytes).getD []

/-- The world of a constructed pool, without buffers in use. -/
def init (block : Nat → Int → UInt8) : World where
  pool := .new block
  dataBuf := fun _ ↦ .none
  trace := fun _ ↦ ⟨[], [], []⟩

end World

/-- Buffers that share the pool. -/
def buffers : ObjectSystem BufferId Effect Effect.Result Input Halt Call Call.Ret World where
  exec := World.exec
  offers := BufferId.offers
  body := fun _ ↦ Call.body

/-- A state of the buffers. -/
abbrev BufferState := ObjectState BufferId Effect Effect.Result Halt Call Call.Ret World

/-- A step of the buffers. -/
abbrev BufferAction := ObjectAction BufferId Input Call

/-- A started process. -/
def BufferState.init (block : Nat → Int → UInt8) : BufferState where
  mem := .init block
  thread := fun _ ↦ .idle
  log := fun _ ↦ []
  halted := .none

end ConcurrentServer.Memory
