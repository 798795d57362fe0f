import Mathlib.Data.Nat.Bitwise

/-!
# The acceptor

`src/net/acceptor.cpp:19–51, 64–105`, `src/net/acceptor.h:24–30`. `do_accept` as the statements
between its system calls: each function takes what a call returned and says where the thread is
next. What the calls return is up to the kernel, which the modules over this one describe. A
successful `accept` gives a connection; what the statements that follow do with it is told in
`Server`.
-/

namespace ConcurrentServer.Net

/-! ### System calls -/

/-- `SOCK_STREAM`. -/
def sockStream : Nat := 0o1

/-- `SOCK_NONBLOCK`. -/
def sockNonblock : Nat := 0o4000

/-- `SOCK_CLOEXEC`. -/
def sockCloexec : Nat := 0o2000000

/-- A socket of this type is made non-blocking. -/
def nonBlocking (type : Nat) : Bool := type &&& sockNonblock ≠ 0

/-- The type that the constructor passes to `socket`; `src/net/acceptor.cpp:24`. -/
def acListenType : Nat := sockStream ||| sockCloexec

/-- `errno` after a failed `accept`, as far as `do_accept` tells the values apart. -/
inductive Errno
  | eintr
  | emfile
  | eagain
  | other
  deriving DecidableEq, Repr

/-- What a call that makes a descriptor returns. -/
def returned {α : Type} (fd : α → Int) : Except Errno α → Int
  | .ok a => fd a
  | .error _ => -1

/-! ### The statements of `do_accept` -/

variable {Addr : Type}

/-- What `accept` makes: the descriptor and the peer's address. -/
structure Accepted (Addr : Type) where
  connfd : Nat
  connAddr : Addr
  deriving DecidableEq, Repr

/-- The next statement of `do_accept`. -/
inductive DoAcceptPc (Addr : Type)
  /-- Not inside `do_accept`. -/
  | outside
  /-- The start of an iteration: `connfd = accept(ac_listen_fd, …)`. -/
  | accept
  /-- The first `close(ac_idle_fd)`, after `EMFILE`. -/
  | closeIdle
  /-- `ac_idle_fd = accept(ac_listen_fd, NULL, NULL)` -/
  | acceptIdle
  /-- The second `close(ac_idle_fd)`. -/
  | closeAccepted
  /-- `ac_idle_fd = open("/dev/null", O_RDONLY | O_CLOEXEC)` -/
  | openIdle
  /-- The statements that make and add the connection. -/
  | create (conn : Accepted Addr)
  deriving DecidableEq, Repr

/-- `Acceptor`. -/
structure Acceptor (Addr : Type) where
  acListenFd : Int
  acIdleFd : Int
  pc : DoAcceptPc Addr
  deriving DecidableEq, Repr

/-- Where the main `accept` leads; `src/net/acceptor.cpp:70–91`. -/
def afterAccept : Except Errno (Accepted Addr) → DoAcceptPc Addr
  | .ok conn => .create conn
  | .error .eintr => .accept
  | .error .emfile => .closeIdle
  | .error .eagain => .outside
  | .error .other => .accept

namespace Acceptor

/-- The constructor, given what `socket` and `open` return; `none` when an assertion fails. -/
def init (listenFd idleFd : Except Errno Nat) : Option (Acceptor Addr) :=
  let acListenFd := returned Int.ofNat listenFd
  let acIdleFd := returned Int.ofNat idleFd
  if acListenFd ≥ 0 ∧ acIdleFd ≥ 0 then some ⟨acListenFd, acIdleFd, .outside⟩ else none

/-- The event loop calls `do_accept`. -/
def enter (s : Acceptor Addr) : Option (Acceptor Addr) :=
  match s.pc with
  | .outside => some { s with pc := .accept }
  | _ => none

/-- One of the two `accept` calls returns. -/
def acceptReturns (s : Acceptor Addr) (result : Except Errno (Accepted Addr)) :
    Option (Acceptor Addr) :=
  match s.pc with
  | .accept => some { s with pc := afterAccept result }
  | .acceptIdle =>
    some { s with
      acIdleFd := returned (fun conn ↦ conn.connfd) result
      pc := .closeAccepted }
  | _ => none

/-- One of the two `close(ac_idle_fd)` returns. -/
def closeReturns (s : Acceptor Addr) : Option (Acceptor Addr) :=
  match s.pc with
  | .closeIdle => some { s with pc := .acceptIdle }
  | .closeAccepted => some { s with pc := .openIdle }
  | _ => none

/-- `open("/dev/null", …)` returns. -/
def openReturns (s : Acceptor Addr) (result : Except Errno Nat) : Option (Acceptor Addr) :=
  match s.pc with
  | .openIdle => some { s with acIdleFd := returned Int.ofNat result, pc := .accept }
  | _ => none

/-- The connection is made and added, and the iteration ends. -/
def created (s : Acceptor Addr) : Option (Acceptor Addr × Accepted Addr) :=
  match s.pc with
  | .create conn => some ({ s with pc := .accept }, conn)
  | _ => none

/-! ### Inversions -/

variable {s t : Acceptor Addr}

theorem init_eq_some {listenFd idleFd : Except Errno Nat} :
    init listenFd idleFd = some s ↔
      (0 ≤ returned Int.ofNat listenFd ∧ 0 ≤ returned Int.ofNat idleFd) ∧
        s = ⟨returned Int.ofNat listenFd, returned Int.ofNat idleFd, .outside⟩ := by
  simp only [init, Option.ite_none_right_eq_some, Option.some.injEq, ge_iff_le]
  rw [eq_comm (b := s)]

theorem enter_eq_some :
    s.enter = some t ↔ s.pc = .outside ∧ t = { s with pc := .accept } := by
  unfold enter
  cases s.pc <;> simp [eq_comm]

theorem acceptReturns_eq_some {result : Except Errno (Accepted Addr)} :
    s.acceptReturns result = some t ↔
      s.pc = .accept ∧ t = { s with pc := afterAccept result } ∨
      s.pc = .acceptIdle ∧
        t = { s with
          acIdleFd := returned (fun conn ↦ conn.connfd) result
          pc := .closeAccepted } := by
  unfold acceptReturns
  cases s.pc <;> simp [eq_comm]

/-- A call of `accept` may return anything. -/
theorem exists_acceptReturns (h : s.pc = .accept ∨ s.pc = .acceptIdle)
    (result : Except Errno (Accepted Addr)) : ∃ t, s.acceptReturns result = some t := by
  rcases h with hpc | hpc
  · exact ⟨_, acceptReturns_eq_some.mpr (Or.inl ⟨hpc, rfl⟩)⟩
  · exact ⟨_, acceptReturns_eq_some.mpr (Or.inr ⟨hpc, rfl⟩)⟩

theorem closeReturns_eq_some :
    s.closeReturns = some t ↔
      s.pc = .closeIdle ∧ t = { s with pc := .acceptIdle } ∨
      s.pc = .closeAccepted ∧ t = { s with pc := .openIdle } := by
  unfold closeReturns
  cases s.pc <;> simp [eq_comm]

theorem openReturns_eq_some {result : Except Errno Nat} :
    s.openReturns result = some t ↔
      s.pc = .openIdle ∧
        t = { s with acIdleFd := returned Int.ofNat result, pc := .accept } := by
  unfold openReturns
  cases s.pc <;> simp [eq_comm]

theorem created_eq_some {conn : Accepted Addr} :
    s.created = some (t, conn) ↔ s.pc = .create conn ∧ t = { s with pc := .accept } := by
  unfold created
  cases s.pc <;> simp [eq_comm, and_comm]

end Acceptor

end ConcurrentServer.Net
