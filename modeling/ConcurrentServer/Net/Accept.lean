import ConcurrentServer.Base.Run
import ConcurrentServer.Net.Acceptor
import ConcurrentServer.Net.Server

/-!
# One call of `do_accept`

`src/net/acceptor.cpp:19–45, 64–105`. `do_accept` called on a backlog of connections, with
failures of `accept` anywhere along the way. On an empty backlog, `accept` fails with `EAGAIN`
when the listening socket is non-blocking and blocks otherwise. The one exit of the loop is the
`EAGAIN` branch, and the constructor makes a socket that blocks.
-/

namespace ConcurrentServer.Net
open ConcurrentServer.Base

/-- A failure of `accept` that has nothing to do with an empty backlog. -/
abbrev Failure := { e : Errno // e ≠ .eagain }

/-- A call of `do_accept`: the connections that are waiting, the failures that are still to come,
and what the main `accept` has returned and what has been created so far. -/
structure AcceptRun (Addr : Type) where
  acceptor : Acceptor Addr
  backlog : List Addr
  failures : List Failure
  accepted : List (Accepted Addr)
  created : List (Accepted Addr)

/-- What can happen next. -/
inductive AcceptAction
  /-- The pending `accept` takes the first waiting connection and returns `fd`. -/
  | client (fd : Nat)
  /-- The pending `accept` fails. -/
  | fail
  /-- The pending `accept` finds the backlog empty and fails with `EAGAIN`. -/
  | again
  /-- The pending `close` returns. -/
  | close
  /-- The pending `open` returns. -/
  | openIdle (result : Except Errno Nat)
  /-- The accepted connection is made and added. -/
  | create

variable {Addr : Type}

/-- What the main `accept` has returned, when the pending one returns `conn`. -/
def DoAcceptPc.accepts (conn : Accepted Addr) : DoAcceptPc Addr → List (Accepted Addr)
  | .accept => [conn]
  | _ => []

namespace AcceptRun

/-- `do_accept` is called. -/
def call (acListenFd acIdleFd : Int) (backlog : List Addr) (failures : List Failure) :
    AcceptRun Addr :=
  ⟨⟨acListenFd, acIdleFd, .accept⟩, backlog, failures, [], []⟩

/-- The step function, for a listening socket of the given type. -/
def step (type : Nat) (s : AcceptRun Addr) : AcceptAction → Option (AcceptRun Addr)
  | .client fd =>
    match s.backlog with
    | [] => none
    | addr :: rest =>
      (s.acceptor.acceptReturns (.ok ⟨fd, addr⟩)).map fun ac ↦
        { s with
          acceptor := ac
          backlog := rest
          accepted := s.accepted ++ s.acceptor.pc.accepts ⟨fd, addr⟩ }
  | .fail =>
    match s.failures with
    | [] => none
    | e :: rest =>
      (s.acceptor.acceptReturns (.error e)).map fun ac ↦
        { s with acceptor := ac, failures := rest }
  | .again =>
    match s.backlog with
    | [] =>
      if nonBlocking type then
        (s.acceptor.acceptReturns (.error .eagain)).map fun ac ↦ { s with acceptor := ac }
      else none
    | _ :: _ => none
  | .close => s.acceptor.closeReturns.map fun ac ↦ { s with acceptor := ac }
  | .openIdle result =>
    (s.acceptor.openReturns result).map fun ac ↦ { s with acceptor := ac }
  | .create =>
    s.acceptor.created.map fun r ↦
      { s with acceptor := r.1, created := s.created ++ [r.2] }

/-- The steps of a call, one constructor for each branch. -/
inductive Step (type : Nat) (s : AcceptRun Addr) : AcceptAction → AcceptRun Addr → Prop
  | accept (fd : Nat) (addr : Addr) (rest : List Addr) (pc : s.acceptor.pc = .accept)
      (backlog : s.backlog = addr :: rest) :
      Step type s (.client fd)
        { s with
          acceptor := { s.acceptor with pc := .create ⟨fd, addr⟩ }
          backlog := rest
          accepted := s.accepted ++ [⟨fd, addr⟩] }
  | acceptIdle (fd : Nat) (addr : Addr) (rest : List Addr) (pc : s.acceptor.pc = .acceptIdle)
      (backlog : s.backlog = addr :: rest) :
      Step type s (.client fd)
        { s with
          acceptor := { s.acceptor with acIdleFd := fd, pc := .closeAccepted }
          backlog := rest }
  | fail (e : Failure) (rest : List Failure) (pc : s.acceptor.pc = .accept)
      (failures : s.failures = e :: rest) :
      Step type s .fail
        { s with
          acceptor := { s.acceptor with pc := afterAccept (.error e) }
          failures := rest }
  | failIdle (e : Failure) (rest : List Failure) (pc : s.acceptor.pc = .acceptIdle)
      (failures : s.failures = e :: rest) :
      Step type s .fail
        { s with
          acceptor := { s.acceptor with acIdleFd := -1, pc := .closeAccepted }
          failures := rest }
  | again (pc : s.acceptor.pc = .accept) (backlog : s.backlog = [])
      (nonBlock : nonBlocking type = true) :
      Step type s .again { s with acceptor := { s.acceptor with pc := .outside } }
  | againIdle (pc : s.acceptor.pc = .acceptIdle) (backlog : s.backlog = [])
      (nonBlock : nonBlocking type = true) :
      Step type s .again
        { s with acceptor := { s.acceptor with acIdleFd := -1, pc := .closeAccepted } }
  | closeIdle (pc : s.acceptor.pc = .closeIdle) :
      Step type s .close { s with acceptor := { s.acceptor with pc := .acceptIdle } }
  | closeAccepted (pc : s.acceptor.pc = .closeAccepted) :
      Step type s .close { s with acceptor := { s.acceptor with pc := .openIdle } }
  | openIdle (result : Except Errno Nat) (pc : s.acceptor.pc = .openIdle) :
      Step type s (.openIdle result)
        { s with
          acceptor := { s.acceptor with acIdleFd := returned Int.ofNat result, pc := .accept } }
  | create (conn : Accepted Addr) (pc : s.acceptor.pc = .create conn) :
      Step type s .create
        { s with
          acceptor := { s.acceptor with pc := .accept }
          created := s.created ++ [conn] }

variable {type : Nat} {s t : AcceptRun Addr} {a : AcceptAction}

/-- Every step is one of these. -/
theorem step_inversion (h : step type s a = some t) : Step type s a t := by
  cases a with
  | client fd =>
    simp only [step] at h
    split at h
    · cases h
    · next addr rest hbacklog =>
      obtain ⟨ac, hac, rfl⟩ := Option.map_eq_some_iff.mp h
      rcases Acceptor.acceptReturns_eq_some.mp hac with ⟨hpc, rfl⟩ | ⟨hpc, rfl⟩
      · rw [hpc]
        exact .accept fd addr rest hpc hbacklog
      · have hinner : s.acceptor.pc.accepts ⟨fd, addr⟩ = [] := by
          rw [hpc]
          rfl
        rw [hinner, List.append_nil]
        exact .acceptIdle fd addr rest hpc hbacklog
  | fail =>
    simp only [step] at h
    split at h
    · cases h
    · next e rest hfailures =>
      obtain ⟨ac, hac, rfl⟩ := Option.map_eq_some_iff.mp h
      rcases Acceptor.acceptReturns_eq_some.mp hac with ⟨hpc, rfl⟩ | ⟨hpc, rfl⟩
      · exact .fail e rest hpc hfailures
      · exact .failIdle e rest hpc hfailures
  | again =>
    simp only [step] at h
    split at h
    · next hbacklog =>
      split at h
      · next htype =>
        obtain ⟨ac, hac, rfl⟩ := Option.map_eq_some_iff.mp h
        rcases Acceptor.acceptReturns_eq_some.mp hac with ⟨hpc, rfl⟩ | ⟨hpc, rfl⟩
        · exact .again hpc hbacklog htype
        · exact .againIdle hpc hbacklog htype
      · cases h
    · cases h
  | close =>
    obtain ⟨ac, hac, rfl⟩ := Option.map_eq_some_iff.mp h
    rcases Acceptor.closeReturns_eq_some.mp hac with ⟨hpc, rfl⟩ | ⟨hpc, rfl⟩
    · exact .closeIdle hpc
    · exact .closeAccepted hpc
  | openIdle result =>
    obtain ⟨ac, hac, rfl⟩ := Option.map_eq_some_iff.mp h
    obtain ⟨hpc, rfl⟩ := Acceptor.openReturns_eq_some.mp hac
    exact .openIdle result hpc
  | create =>
    obtain ⟨⟨ac, conn⟩, hac, rfl⟩ := Option.map_eq_some_iff.mp h
    obtain ⟨hpc, rfl⟩ := Acceptor.created_eq_some.mp hac
    exact .create conn hpc

/-! ### Every run ends -/

/-- How far the thread is from the next `accept` of the loop. -/
def rank : DoAcceptPc Addr → Nat
  | .outside => 0
  | .accept => 1
  | .create _ | .openIdle => 2
  | .closeAccepted => 3
  | .acceptIdle => 4
  | .closeIdle => 5

/-- Every iteration that goes on uses up a waiting connection or a failure. -/
def measure (s : AcceptRun Addr) : Nat :=
  5 * (s.backlog.length + s.failures.length) + rank s.acceptor.pc

/-- A failure leads at most to the start of the `EMFILE` branch. -/
theorem rank_afterAccept_le (e : Errno) :
    rank (afterAccept (.error e) : DoAcceptPc Addr) ≤ 5 := by
  cases e <;> simp [afterAccept, rank]

/-- Every step lowers the measure. -/
theorem Step.measure_lt (h : Step type s a t) : t.measure < s.measure := by
  cases h with
  | accept fd addr rest pc backlog | acceptIdle fd addr rest pc backlog =>
    simp only [measure, pc, backlog, rank, List.length_cons]
    omega
  | fail e rest pc failures =>
    have hle : rank (afterAccept (.error e) : DoAcceptPc Addr) ≤ 5 := rank_afterAccept_le e
    have hone : rank (.accept : DoAcceptPc Addr) = 1 := rfl
    simp only [measure, pc, failures, List.length_cons]
    omega
  | failIdle e rest pc failures =>
    simp only [measure, pc, failures, rank, List.length_cons]
    omega
  | again pc | againIdle pc | closeIdle pc | closeAccepted pc | openIdle result pc
    | create conn pc =>
    simp only [measure, pc, rank]
    omega

/-- No run of `do_accept` goes on for ever on a finite backlog with finitely many failures. -/
theorem terminates (type : Nat) (s : AcceptRun Addr) : Terminates (step type) s := by
  apply terminates_of_measure measure
  intro u a t hstep
  exact (step_inversion hstep).measure_lt

/-! ### How a run ends -/

/-- The thread is in one of the two `accept` calls, and nobody is left to come. -/
def Waits (s : AcceptRun Addr) : Prop :=
  (s.acceptor.pc = .accept ∨ s.acceptor.pc = .acceptIdle) ∧ s.backlog = [] ∧ s.failures = []

/-- The connection that the main `accept` has returned and that is not yet created. -/
def uncreated : DoAcceptPc Addr → List (Accepted Addr)
  | .create conn => [conn]
  | _ => []

/-- Every connection that the main `accept` has returned is created once, the last one maybe
later. -/
def CreatesAccepted (s : AcceptRun Addr) : Prop :=
  s.accepted = s.created ++ uncreated s.acceptor.pc

/-- An accepted connection is created in the next step of the thread. -/
theorem CreatesAccepted.step (h : s.CreatesAccepted) (hstep : Step type s a t) :
    t.CreatesAccepted := by
  unfold CreatesAccepted at h ⊢
  cases hstep with
  | accept fd addr rest pc backlog =>
    rw [pc] at h
    simp only [uncreated] at h ⊢
    rw [h, List.append_nil]
  | fail e rest pc failures =>
    have hnone : uncreated (afterAccept (.error e) : DoAcceptPc Addr) = [] := by
      cases e.1 <;> rfl
    rw [pc] at h
    simp only [hnone]
    exact h
  | create conn pc =>
    rw [pc, uncreated] at h
    simp only [h, uncreated, List.append_nil]
  | acceptIdle fd addr rest pc backlog | failIdle e rest pc failures
    | again pc | againIdle pc | closeIdle pc | closeAccepted pc | openIdle result pc =>
    rw [pc] at h
    exact h

/-- Where nothing is enabled, `do_accept` has returned, or it waits in an `accept` that blocks. -/
theorem outside_or_waits (h : ∀ a, step type s a = none) :
    s.acceptor.pc = .outside ∨ s.Waits ∧ nonBlocking type = false := by
  have haccept : s.acceptor.pc = .accept ∨ s.acceptor.pc = .acceptIdle →
      s.Waits ∧ nonBlocking type = false := by
    intro hpc
    have hfailures : s.failures = [] := by
      cases hf : s.failures with
      | nil => rfl
      | cons e rest =>
        obtain ⟨ac, hac⟩ := Acceptor.exists_acceptReturns hpc (.error e)
        have hfail := h .fail
        simp [AcceptRun.step, hf, hac] at hfail
    have hbacklog : s.backlog = [] := by
      cases hb : s.backlog with
      | nil => rfl
      | cons addr rest =>
        obtain ⟨ac, hac⟩ := Acceptor.exists_acceptReturns hpc (.ok ⟨0, addr⟩)
        have hclient := h (.client 0)
        simp [AcceptRun.step, hb, hac] at hclient
    refine ⟨⟨hpc, hbacklog, hfailures⟩, ?_⟩
    obtain ⟨ac, hac⟩ := Acceptor.exists_acceptReturns hpc (.error .eagain)
    have hagain := h .again
    simpa [AcceptRun.step, hbacklog, hac] using hagain
  cases hpc : s.acceptor.pc with
  | outside => exact Or.inl rfl
  | accept => exact Or.inr (haccept (Or.inl hpc))
  | acceptIdle => exact Or.inr (haccept (Or.inr hpc))
  | closeIdle | closeAccepted =>
    have hclose := h .close
    simp [AcceptRun.step, Acceptor.closeReturns, hpc] at hclose
  | openIdle =>
    have hopen := h (.openIdle (.ok 0))
    simp [AcceptRun.step, Acceptor.openReturns, hpc] at hopen
  | create conn =>
    have hcreate := h .create
    simp [AcceptRun.step, Acceptor.created, hpc] at hcreate

/-- On a blocking socket the loop is never left. -/
theorem Step.inside (h : Step type s a t) (block : nonBlocking type = false) :
    t.acceptor.pc ≠ .outside := by
  cases h with
  | fail e rest pc failures =>
    obtain ⟨e, he⟩ := e
    cases e with
    | eagain => exact absurd rfl he
    | eintr | emfile | other => simp [afterAccept]
  | again pc backlog nonBlock => simp [nonBlock] at block
  | againIdle pc backlog nonBlock => simp [nonBlock] at block
  | _ => simp

/-- `do_accept` returns without waiting for anybody, and has created what it has accepted. -/
structure Completes (s₀ : AcceptRun Addr) (type : Nat) : Prop where
  terminates : Terminates (AcceptRun.step type) s₀
  done : ∀ s, Reach (AcceptRun.step type) s₀ s → (∀ a, AcceptRun.step type s a = none) →
    s.acceptor.pc = .outside ∧ s.created = s.accepted

section Call

variable {acListenFd acIdleFd : Int} {backlog : List Addr} {failures : List Failure}

/-- Along a call, what has been accepted has been created. -/
theorem createsAccepted_of_reach
    (h : Reach (AcceptRun.step type) (call acListenFd acIdleFd backlog failures) s) :
    s.CreatesAccepted := by
  apply h.invariant
  · rfl
  · intro u a t hu _ hstep
    exact hu.step (step_inversion hstep)

/-- A call on a blocking socket does not return. -/
theorem inside_of_reach (block : nonBlocking type = false)
    (h : Reach (AcceptRun.step type) (call acListenFd acIdleFd backlog failures) s) :
    s.acceptor.pc ≠ .outside := by
  apply h.invariant
  · simp [call]
  · intro u a t _ _ hstep
    exact (step_inversion hstep).inside block

/-- A call completes exactly when the listening socket is non-blocking. -/
theorem completes_iff :
    (call acListenFd acIdleFd backlog failures).Completes type ↔ nonBlocking type = true := by
  constructor
  · intro h
    by_contra hblock
    obtain ⟨s, hs, hend⟩ := h.terminates.exists_end
    exact inside_of_reach (by simpa using hblock) hs (h.done s hs hend).1
  · intro hnonBlock
    refine ⟨terminates type _, ?_⟩
    intro s hs hend
    have houtside : s.acceptor.pc = .outside := by
      rcases outside_or_waits hend with houtside | ⟨-, hblock⟩
      · exact houtside
      · simp [hnonBlock] at hblock
    have hcreated := createsAccepted_of_reach hs
    rw [CreatesAccepted, houtside] at hcreated
    exact ⟨houtside, by simpa [uncreated] using hcreated.symm⟩

end Call

end AcceptRun

/-! ### The statements of an iteration -/

/-- A step of the acceptor's thread in a live server. -/
theorem Server.step_acceptor {s : Server} (live : s.aborted = false) (ok : Bool) :
    s.step (.acceptor ok) = s.acceptorStep ok := by
  simp [step, stepLive, live]

/-- What one step creates here takes the acceptor of `Server` the statements after `accept`: they
add one connection for the descriptor, and lead back to the next iteration. -/
theorem Server.accept_creates_one {s : Server} {fd : Int} {ok : Bool} (live : s.aborted = false)
    (idle : s.acceptor = .idle) (fresh : 0 ≤ fd ∧ s.fdOpen fd = false)
    (loops : 0 < s.tsThreadNum) :
    ∃ t, run Server.step s (.accept fd :: List.replicate 5 (.acceptor ok)) = some t ∧
      t.acceptor = .idle ∧ t.connCount = s.connCount + 1 ∧
      t.tsTcpConnections = s.tsTcpConnections ++ [s.connCount] ∧
      (t.conns s.connCount).tcFd = fd := by
  have haccept : s.step (.accept fd) = some (s.acceptConn fd) := by
    simp [step, stepLive, live, idle, fresh, loops]
  simp only [run, List.replicate, haccept, Option.bind_some]
  simp [step_acceptor, live, acceptorStep, addToPoller, addToPollerCtl, modLoop, addNext, addStmt,
    setAcceptor, modConn, acceptConn, newConn]

/-! ### The call of a server -/

/-- The constructor makes a socket that blocks. -/
theorem nonBlocking_acListenType : nonBlocking acListenType = false := by
  decide

/-- Whatever the backlog and the failures, `do_accept` does not return without waiting: every run
of it creates what it has accepted and ends inside an `accept`, waiting for further clients. -/
theorem do_accept_waits_for_further_clients (acListenFd acIdleFd : Int) (backlog : List Addr)
    (failures : List Failure) :
    ¬ (AcceptRun.call acListenFd acIdleFd backlog failures).Completes acListenType ∧
      ∀ s, Reach (AcceptRun.step acListenType)
          (.call acListenFd acIdleFd backlog failures) s →
        (∀ a, s.step acListenType a = none) → s.Waits ∧ s.created = s.accepted := by
  constructor
  · intro hcompletes
    have hnonBlock := AcceptRun.completes_iff.mp hcompletes
    rw [nonBlocking_acListenType] at hnonBlock
    cases hnonBlock
  · intro s hs hend
    rcases AcceptRun.outside_or_waits hend with houtside | ⟨hwaits, -⟩
    · exact absurd houtside (AcceptRun.inside_of_reach nonBlocking_acListenType hs)
    · have hcreated := AcceptRun.createsAccepted_of_reach hs
      refine ⟨hwaits, ?_⟩
      unfold AcceptRun.CreatesAccepted at hcreated
      rcases hwaits.1 with hpc | hpc
      · rw [hpc] at hcreated
        simpa [AcceptRun.uncreated] using hcreated.symm
      · rw [hpc] at hcreated
        simpa [AcceptRun.uncreated] using hcreated.symm

/-- One client: `do_accept` creates its connection and then waits for the next client. -/
theorem one_client_and_no_return :
    ¬ ∀ (backlog : List Nat) (failures : List Failure),
      (AcceptRun.call 3 4 backlog failures).Completes acListenType := by
  intro h
  have hrun : run (AcceptRun.step acListenType) (.call 3 4 [80] []) [.client 5, .create] =
      some ⟨⟨3, 4, .accept⟩, [], [], [⟨5, 80⟩], [⟨5, 80⟩]⟩ := rfl
  have hend : ∀ a, AcceptRun.step acListenType
      (⟨⟨3, 4, .accept⟩, [], [], [⟨5, 80⟩], [⟨5, 80⟩]⟩ : AcceptRun Nat) a = none := by
    intro a
    cases a <;> rfl
  have hpc := ((h [80] []).done _ (reach_of_run hrun) hend).1
  cases hpc

end ConcurrentServer.Net
