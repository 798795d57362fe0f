import ConcurrentServer.Base.Run
import ConcurrentServer.Net.Closing
import ConcurrentServer.Net.ConnTimers

/-!
# How often a connection is closed

The body of `do_close` in every run: `src/net/tcp_conn.cpp:44–113`,
`src/net/tcp_server.h:43–55`. Nothing marks a connection as closed and `do_close` cancels no
timer, so every trigger that is still armed runs the body again.
-/

namespace ConcurrentServer.Net
open ConcurrentServer.Base

/-- `update_conn_timeout_time` has still to create its timer. -/
def MsgPc.arms : MsgPc → Bool
  | .getTimerId | .cancel _ | .addNewTcpConn .runAfter => true
  | _ => false

/-- The thread may still enter `do_close` of `c`, or create a timer that does. -/
def IoPc.triggers (c : Nat) : IoPc → Bool
  | .reading c' _ | .writing c' _ => c' = c
  | .message c' p _ => c' = c && p.arms
  | .closing c' p _ => c' = c && p = .enter
  | .userClosing _ d p _ => d = c && p = .enter
  | _ => false

namespace Server

/-- The connection whose `do_close` is entered. -/
def closeEntered (s : Server) (a : ServerAction) : Option Nat :=
  match s.closeStatement a with
  | some (c, .enter) => some c
  | _ => none

/-- No trigger of `c` but the action's own is armed. -/
structure Alone (s : Server) (a : ServerAction) (c : Nat) : Prop where
  acceptor : s.acceptor.arms c = false
  io : ∀ l < s.tsThreadNum, (s.io l).triggers c = true → a = .close l
  timer : ∀ k < s.tsTimer.tmCount, ∀ tn ∈ s.tsTimer.nodes k,
    tn.job = c → s.armed tn = true → a = .timerClose k

instance (s : Server) (a : ServerAction) (c : Nat) : Decidable (s.Alone a c) :=
  decidable_of_iff (s.acceptor.arms c = false ∧
      (∀ l < s.tsThreadNum, (s.io l).triggers c = true → a = .close l) ∧
      ∀ k < s.tsTimer.tmCount, ∀ tn ∈ s.tsTimer.nodes k,
        tn.job = c → s.armed tn = true → a = .timerClose k)
    ⟨fun h ↦ ⟨h.1, h.2.1, h.2.2⟩, fun h ↦ ⟨h.1, h.2, h.3⟩⟩

/-- The condition on a step: it enters `do_close` only when no other trigger of the connection
is armed, it calls into no connection whose `do_close` has begun, and the timer has not made
2³² nodes. -/
structure ClosedOnce (s : Server) (a : ServerAction) : Prop where
  alone : ∀ c ∈ s.closeEntered a, s.Alone a c
  opened : ∀ c ∈ s.callsInto a, (s.conns c).closes = 0
  bound : s.tsTimer.tmCount < 2 ^ 32

instance (s : Server) (a : ServerAction) : Decidable (s.ClosedOnce a) :=
  decidable_of_iff ((∀ c ∈ s.closeEntered a, s.Alone a c) ∧
      (∀ c ∈ s.callsInto a, (s.conns c).closes = 0) ∧ s.tsTimer.tmCount < 2 ^ 32)
    ⟨fun h ↦ ⟨h.1, h.2.1, h.2.2⟩, fun h ↦ ⟨h.1, h.2, h.3⟩⟩

/-- No trigger of `c` is armed. -/
structure Unarmed (s : Server) (c : Nat) : Prop where
  acceptor : s.acceptor.arms c = false
  io : ∀ l, (s.io l).triggers c = false
  timer : ∀ k tn, s.tsTimer.nodes k = some tn → tn.job = c → s.armed tn = false

/-- `do_close` of `c` has not been entered, or once and nothing is left that could enter it
again. -/
def OnceOrNever (s : Server) (c : Nat) : Prop :=
  (s.conns c).closes = 0 ∨ ((s.conns c).closes = 1 ∧ s.Unarmed c)

/-- What the condition keeps. -/
structure ClosesOnce (s : Server) : Prop where
  threads : s.NoOtherThread
  numbered : s.tsTimer.Numbered
  once : ∀ c, s.OnceOrNever c

variable {s t : Server} {a : ServerAction} {c : Nat}

/-! ### Unarmed connections stay unarmed -/

/-- What is armed is read off three components. -/
theorem Unarmed.congr (h : s.Unarmed c) (acceptor : t.acceptor = s.acceptor)
    (io : t.io = s.io) (timer : t.tsTimer = s.tsTimer) : t.Unarmed c where
  acceptor := acceptor ▸ h.acceptor
  io := io ▸ h.io
  timer k tn hk hj := by
    rw [timer] at hk
    simpa only [armed, timer] using h.timer k tn hk hj

/-- The acceptor's thread moves on and arms nothing that was not. -/
theorem Unarmed.moveAcceptor (h : s.Unarmed c) {pc pc' : AcceptPc} (at_ : s.acceptor = pc)
    (acceptor : t.acceptor = s.acceptor) (io : t.io = s.io) (timer : t.tsTimer = s.tsTimer)
    (hpc : pc.arms c = false → pc'.arms c = false) : (t.setAcceptor pc').Unarmed c :=
  have ht := h.congr acceptor io timer
  ⟨hpc (at_ ▸ h.acceptor), ht.io, ht.timer⟩

/-- A thread moves to a place that triggers nothing. -/
theorem Unarmed.setIo (h : s.Unarmed c) {l : Nat} {pc : IoPc} (hpc : pc.triggers c = false) :
    (s.setIo l pc).Unarmed c where
  acceptor := h.acceptor
  io l' := by
    rw [setIo_io]
    by_cases hl : l' = l
    · rw [hl, Function.update_self, hpc]
    · rw [Function.update_of_ne hl]; exact h.io l'
  timer := h.timer

/-- A node moves to a stage that is armed only if it was armed before. -/
theorem Unarmed.setStage (h : s.Unarmed c) {k : Nat} {tn : TimerNode Nat ClosePc}
    {stage : TimerStage ClosePc} (node : s.tsTimer.nodes k = some tn)
    (hst : tn.job = c → s.armed tn = false → s.armed { tn with stage := stage } = false) :
    (s.setStage k stage).Unarmed c where
  acceptor := h.acceptor
  io := h.io
  timer k' tn' hk hj := by
    rw [setStage_tsTimer, TimerState.nodes_setStage] at hk
    by_cases hkk : k' = k
    · rw [if_pos hkk, node] at hk
      obtain rfl := Option.some.inj hk
      exact hst hj (h.timer k tn node hj)
    · rw [if_neg hkk] at hk
      exact h.timer k' tn' hk hj

/-- A timer for another connection arms nothing here. -/
theorem Unarmed.runAfter (h : s.Unarmed c) (hn : s.tsTimer.Numbered)
    (hb : s.tsTimer.tmCount < 2 ^ 32) {d : Nat} (hd : d ≠ c) :
    (s.addStmt d .runAfter).Unarmed c where
  acceptor := h.acceptor
  io := h.io
  timer k tn hk hj := by
    change (s.tsTimer.runAfter d).nodes k = some tn at hk
    rw [TimerState.nodes_runAfter] at hk
    split at hk
    · obtain rfl := Option.some.inj hk
      exact absurd hj hd
    · have hkey : (s.addStmt d .runAfter).tsTimer.tmIdStateMap tn.tnId =
          s.tsTimer.tmIdStateMap tn.tnId := by
        change (s.tsTimer.runAfter d).tmIdStateMap tn.tnId = _
        rw [TimerState.tmIdStateMap_runAfter, if_neg (hn.nextId_fresh hb hk)]
      simpa only [armed, hkey] using h.timer k tn hk hj

/-- Cancelling arms nothing. -/
theorem Unarmed.cancel (h : s.Unarmed c) (id : Int) :
    Unarmed { s with tsTimer := s.tsTimer.cancel id } c where
  acceptor := h.acceptor
  io := h.io
  timer k tn hk hj := by
    have hold := h.timer k tn hk hj
    unfold armed at hold ⊢
    split at hold <;> simp_all [TimerState.cancel]

/-- A thread's move arms nothing, unless it calls into the connection. -/
theorem IoMove.triggers {l : Nat} {pc pc' : IoPc} (hpc : s.io l = pc)
    (h : IoMove s l a pc pc') (ht : pc'.triggers c = true) :
    pc.triggers c = true ∨ s.callsInto a = some c := by
  cases h with
  | read fd events batch c' entry found call =>
    obtain rfl : c' = c := by simpa [IoPc.triggers] using ht
    exact Or.inr (by simp [callsInto, hpc, found, call])
  | write fd events batch c' entry found call =>
    obtain rfl : c' = c := by simpa [IoPc.triggers] using ht
    exact Or.inr (by simp [callsInto, hpc, found, call])
  | userClose c' d batch known =>
    obtain rfl : d = c := by simpa [IoPc.triggers] using ht
    exact Or.inr rfl
  | readFails c' batch => exact Or.inl (by simpa [IoPc.triggers] using ht)
  | readData c' batch => exact Or.inl (by simpa [IoPc.triggers, MsgPc.arms] using ht)
  | getTimerId c' batch => exact Or.inl (by simpa [IoPc.triggers, MsgPc.arms] using ht)
  | writeFails c' batch => exact Or.inl (by simpa [IoPc.triggers] using ht)
  | _ => simp [IoPc.triggers, MsgPc.arms] at ht

/-! ### The invariant -/

/-- A started server has closed nothing. -/
theorem closesOnce_init (n : Nat) (elEvfd : Nat → Int) : (init n elEvfd).ClosesOnce where
  threads := noOtherThread_init n elEvfd
  numbered := TimerState.numbered_init
  once _ := Or.inl rfl

/-- The entry counts of the connections after a change that leaves them alone. -/
theorem closes_modConn {d : Nat} {f : Conn → Conn}
    (hf : (f (s.conns d)).closes = (s.conns d).closes) (c : Nat) :
    ((s.modConn d f).conns c).closes = (s.conns c).closes := by
  rw [modConn_conns]
  by_cases hc : c = d
  · rw [hc, Function.update_self, hf]
  · rw [Function.update_of_ne hc]

/-- A statement of `do_close` after the first leaves the entry counts alone. -/
theorem closes_closeStmt {d : Nat} {p : ClosePc} (hp : p ≠ .enter) (c : Nat) :
    ((s.closeStmt d p).conns c).closes = (s.conns c).closes := by
  cases p with
  | enter => exact absurd rfl hp
  | clearBufs => exact closes_modConn (f := fun tc ↦ { tc with tcObufLength := 0 }) rfl c
  | dropFd fd => exact closes_modConn (f := fun tc ↦ { tc with tcFd := -1 }) rfl c
  | doClean p => rw [conns_doClean]
  | _ => rfl

/-- A statement of `add_new_tcp_conn` leaves the entry counts alone. -/
theorem closes_addStmt {d : Nat} {p : AddPc} (c : Nat) :
    ((s.addStmt d p).conns c).closes = (s.conns c).closes := by
  cases p with
  | setTimerId id => exact closes_modConn (f := fun tc ↦ { tc with tcTimerId := id }) rfl c
  | _ => rfl

/-- A step that enters no `do_close` has to leave unarmed what was. -/
theorem OnceOrNever.congr (h : s.OnceOrNever c) (closes : (t.conns c).closes =
      (s.conns c).closes) (unarmed : (s.conns c).closes = 1 → s.Unarmed c → t.Unarmed c) :
    t.OnceOrNever c := by
  rw [OnceOrNever, closes]
  exact h.imp_right fun hc ↦ ⟨hc.1, unarmed hc.1 hc.2⟩

/-- A connection with an armed trigger has not been closed. -/
theorem ClosesOnce.fresh_of_armed (h : s.ClosesOnce) (armed : ¬ s.Unarmed c) :
    (s.conns c).closes = 0 :=
  (h.once c).resolve_right fun hc ↦ armed hc.2

/-- Where only the action's own trigger is armed, the other threads trigger nothing. -/
theorem Alone.io_of (h : s.Alone a c) (threads : s.NoOtherThread) {l : Nat}
    (ha : a ≠ .close l) : (s.io l).triggers c = false := by
  by_cases hl : l < s.tsThreadNum
  · by_contra ht
    exact ha (h.io l hl (by simpa using ht))
  · rw [threads l (by omega)]
    rfl

/-- Where only the action's own trigger is armed, the other nodes are not. -/
theorem Alone.timer_of (h : s.Alone a c) (numbered : s.tsTimer.Numbered) {k : Nat}
    {tn : TimerNode Nat ClosePc} (node : s.tsTimer.nodes k = some tn) (hj : tn.job = c)
    (ha : a ≠ .timerClose k) : s.armed tn = false := by
  by_contra ht
  exact ha (h.timer k (numbered k tn node).1 tn node hj (by simpa using ht))

/-- Entering `do_close` counts one for its connection. -/
theorem closes_enter (s : Server) (d c : Nat) :
    ((s.closeStmt d .enter).conns c).closes =
      if c = d then (s.conns d).closes + 1 else (s.conns c).closes := by
  simp only [closeStmt, modConn_conns]
  by_cases hc : c = d
  · simp [hc]
  · simp [hc]

/-- A statement of `do_close` of `d` on the thread of loop `l`. -/
theorem ClosesOnce.ioClose (h : s.ClosesOnce) {l : Nat} (hok : s.ClosedOnce (.close l))
    {d : Nat} {p : ClosePc} {pc : IoPc} (hstat : s.closeStatement (.close l) = some (d, p))
    (hhere : p = .enter → (s.io l).triggers d = true)
    (hpc : ∀ c, pc.triggers c = false) (c : Nat) :
    ((s.closeStmt d p).setIo l pc).OnceOrNever c := by
  have stay {c : Nat} (hc : s.Unarmed c) : ((s.closeStmt d p).setIo l pc).Unarmed c :=
    (hc.congr (t := s.closeStmt d p) (closeStmt_acceptor s d p) (closeStmt_io s d p)
      (closeStmt_tsTimer s d p)).setIo (hpc c)
  by_cases hp : p = .enter
  · subst hp
    have halone : s.Alone (.close l) d := hok.alone d (by simp [closeEntered, hstat])
    by_cases hc : c = d
    · subst hc
      have hfresh := h.fresh_of_armed fun hu ↦ by
        rw [hu.io l] at hhere
        exact absurd (hhere rfl) (by simp)
      refine Or.inr ⟨by simp [setIo_conns, closes_enter, hfresh], ?_⟩
      constructor
      · exact halone.acceptor
      · intro l'
        by_cases hl : l' = l
        · simp [hl, hpc]
        · rw [setIo_io, Function.update_of_ne hl]
          exact halone.io_of h.threads (by simpa using Ne.symm hl)
      · exact fun k tn hk hj ↦ halone.timer_of h.numbered hk hj nofun
    · refine (h.once c).congr ?_ fun _ ↦ stay
      rw [setIo_conns, closes_enter, if_neg hc]
  · exact (h.once c).congr (closes_closeStmt hp c) fun _ ↦ stay

/-- A statement of `do_close` in the callback of node `k`. -/
theorem ClosesOnce.timerClose (h : s.ClosesOnce) {k : Nat} {tn : TimerNode Nat ClosePc}
    {p : ClosePc} (hok : s.ClosedOnce (.timerClose k)) (node : s.tsTimer.nodes k = some tn)
    (at_ : tn.stage = .running p) (body : p ≠ .ret) (c : Nat) :
    ((s.closeStmt tn.job p).setStage k (.running (s.closeNext tn.job p))).OnceOrNever c := by
  have hnext := s.closeNext_ne_enter tn.job p
  have node' : (s.closeStmt tn.job p).tsTimer.nodes k = some tn := by
    rw [closeStmt_tsTimer]; exact node
  have stay {c : Nat} (hc : s.Unarmed c) :
      ((s.closeStmt tn.job p).setStage k (.running (s.closeNext tn.job p))).Unarmed c :=
    (hc.congr (t := s.closeStmt tn.job p) (closeStmt_acceptor s _ p) (closeStmt_io s _ p)
      (closeStmt_tsTimer s _ p)).setStage node' fun _ _ ↦ by simp [armed, hnext]
  by_cases hp : p = .enter
  · subst hp
    have hstat : s.closeStatement (.timerClose k) = some (tn.job, .enter) := by
      obtain ⟨id, job, stage⟩ := tn
      simp only at at_
      simp [closeStatement, node, at_]
    have halone : s.Alone (.timerClose k) tn.job :=
      hok.alone tn.job (by simp [closeEntered, hstat])
    by_cases hc : c = tn.job
    · subst hc
      have hfresh := h.fresh_of_armed fun hu ↦ by
        have := hu.timer k tn node rfl
        simp [armed, at_] at this
      refine Or.inr ⟨by simp [setStage_conns, closes_enter, hfresh], ?_⟩
      constructor
      · exact halone.acceptor
      · exact fun l ↦ halone.io_of h.threads (by simp)
      · intro k' tn' hk hj
        rw [setStage_tsTimer, TimerState.nodes_setStage] at hk
        by_cases hkk : k' = k
        · rw [if_pos hkk, node'] at hk
          obtain rfl := Option.some.inj hk
          simp [armed, hnext]
        · rw [if_neg hkk, closeStmt_tsTimer] at hk
          exact halone.timer_of h.numbered hk hj (by simpa using Ne.symm hkk)
    · refine (h.once c).congr ?_ fun _ ↦ stay
      rw [setStage_conns, closes_enter, if_neg hc]
  · exact (h.once c).congr (closes_closeStmt hp c) fun _ ↦ stay

/-- An admitted step keeps every connection closed at most once. -/
theorem ClosesOnce.once_step (h : s.ClosesOnce) (hok : s.ClosedOnce a) (hstep : Step s a t)
    (c : Nat) : t.OnceOrNever c := by
  have hc := h.once c
  cases hstep with
  | accept fd idle fresh started =>
    by_cases he : c = s.connCount
    · exact Or.inl (by simp [he, newConn])
    · refine hc.congr (by rw [acceptConn_conns, Function.update_of_ne he]) fun _ hu ↦ ?_
      exact ⟨by simpa [AcceptPc.arms] using Ne.symm he, hu.io, hu.timer⟩
  | addTask ok d at_ => exact hc.congr rfl fun _ hu ↦ hu.moveAcceptor at_ rfl rfl rfl id
  | addTaskCtl ok d l op fd ev at_ =>
    exact hc.congr rfl fun _ hu ↦ hu.moveAcceptor at_ rfl rfl rfl id
  | acceptAdd ok d p at_ =>
    refine hc.congr (closes_addStmt c) fun _ hu ↦ ?_
    cases p with
    | runAfter =>
      have hd : d ≠ c := by simpa [at_, AcceptPc.arms] using hu.acceptor
      have harm := hu.runAfter h.numbered hok.bound hd
      exact ⟨rfl, harm.io, harm.timer⟩
    | setTimerId id => exact hu.moveAcceptor at_ rfl rfl rfl fun _ ↦ rfl
    | emplaceBack => exact hu.moveAcceptor at_ rfl rfl rfl fun _ ↦ rfl
  | io l a pc pc' at_ move =>
    refine hc.congr rfl fun h1 hu ↦ hu.setIo ?_
    by_contra ht
    rcases move.triggers at_ (by simpa using ht) with hold | hcall
    · rw [← at_, hu.io l] at hold
      cases hold
    · have := hok.opened c hcall
      omega
  | abort l fd events batch at_ missing =>
    exact hc.congr rfl fun _ hu ↦ hu.congr rfl rfl rfl
  | cancel l d id batch at_ =>
    refine hc.congr rfl fun _ hu ↦ (hu.cancel id).setIo ?_
    have harms := hu.io l
    rw [at_] at harms
    exact harms
  | messageAdd l d p batch at_ =>
    refine hc.congr (closes_addStmt c) fun _ hu ↦ ?_
    cases p with
    | runAfter =>
      have hd : d ≠ c := by simpa [at_, IoPc.triggers, MsgPc.arms] using hu.io l
      exact (hu.runAfter h.numbered hok.bound hd).setIo
        (by simp [addNext, IoPc.triggers, MsgPc.arms])
    | setTimerId id =>
      exact (hu.congr (t := s.addStmt d (.setTimerId id)) rfl rfl rfl).setIo
        (by simp [addNext, IoPc.triggers, MsgPc.arms])
    | emplaceBack =>
      exact (hu.congr (t := s.addStmt d .emplaceBack) rfl rfl rfl).setIo
        (by simp [addNext, IoPc.triggers, MsgPc.arms])
  | send l e d len batch at_ known =>
    refine hc.congr ?_ fun _ hu ↦ (hu.congr ?_ ?_ ?_).setIo (by simp [IoPc.triggers, MsgPc.arms])
    · exact closes_modConn (f := fun tc ↦ { tc with tcObufLength := tc.tcObufLength + len }) rfl c
    all_goals rfl
  | sendFails l d len => exact hc
  | obuf a d n =>
    refine hc.congr ?_ fun _ hu ↦ hu.congr rfl rfl rfl
    exact closes_modConn (f := fun tc ↦ { tc with tcObufLength := n }) rfl c
  | sendCtl l ok e l' op fd ev batch at_ =>
    refine hc.congr rfl fun _ hu ↦ (hu.congr ?_ ?_ ?_).setIo (by simp [IoPc.triggers, MsgPc.arms])
    all_goals rfl
  | writeDel l d op ev batch at_ drained call =>
    refine hc.congr rfl fun _ hu ↦ (hu.congr ?_ ?_ ?_).setIo rfl <;> rfl
  | writeCtl l ok d l' op fd ev batch at_ =>
    refine hc.congr rfl fun _ hu ↦ (hu.congr ?_ ?_ ?_).setIo rfl <;> rfl
  | hupMap l fd batch at_ =>
    refine hc.congr rfl fun _ hu ↦ (hu.congr ?_ ?_ ?_).setIo rfl <;> rfl
  | hupCtl l ok fd batch at_ =>
    refine hc.congr rfl fun _ hu ↦ (hu.congr ?_ ?_ ?_).setIo rfl <;> rfl
  | close l d p batch at_ body =>
    apply h.ioClose hok (by simp [closeStatement, at_])
    · intro hp
      simp [at_, hp, IoPc.triggers]
    · intro c
      simp [IoPc.triggers, closeNext_ne_enter]
  | userCloseStmt l e d p batch at_ body =>
    apply h.ioClose hok (by simp [closeStatement, at_])
    · intro hp
      simp [at_, hp, IoPc.triggers]
    · intro c
      simp [IoPc.triggers, closeNext_ne_enter]
  | timer k tn a stage node move =>
    exact hc.congr rfl fun _ hu ↦ hu.setStage node fun _ hold ↦ move.armed hold
  | timerClose k tn p node at_ body => exact h.timerClose hok node at_ body c

/-- In every run whose steps all meet the condition, the body of `do_close` is entered at most
once for each connection. -/
theorem closed_at_most_once {n : Nat} {elEvfd : Nat → Int}
    (h : ReachBy Server.step ClosedOnce (init n elEvfd) s) (c : Nat) : (s.conns c).closes ≤ 1 := by
  have hinv : s.ClosesOnce := h.invariant (closesOnce_init n elEvfd) fun s a t hs hok hstep ↦
    ⟨hs.threads.step (step_inversion hstep), (step_inversion hstep).numbered hs.numbered,
      hs.once_step hok (step_inversion hstep)⟩
  rcases hinv.once c with h0 | ⟨h1, -⟩ <;> omega

/-- The only connection times out. -/
def timeoutCloses : List ServerAction :=
  .accept 7 :: List.replicate 5 (.acceptor true) ++ [.expire 0, .check 0, .post 0, .begin 0] ++
    List.replicate 12 (.timerClose 0)

/-- A connection that times out is closed, and no other is. -/
theorem timed_out_connection_closed_once :
    ∃ s, run Server.step (init 1 fun _ ↦ 3) timeoutCloses = some s ∧ (conns s 0).closes = 1 ∧
      ∀ c, (conns s c).closes ≤ 1 := by
  have hrun : (run Server.step (init 1 fun _ ↦ 3) timeoutCloses).isSome := by decide +kernel
  have hcloses : ∀ t ∈ run Server.step (init 1 fun _ ↦ 3) timeoutCloses,
      (conns t 0).closes = 1 := by decide +kernel
  obtain ⟨s, hs⟩ := Option.isSome_iff_exists.mp hrun
  exact ⟨s, hs, hcloses s hs, closed_at_most_once (reachBy_of_run hs (by decide +kernel))⟩

/-- The message callback calls `active_close`. -/
def ofUserClose : ServerAction → Bool
  | .userClose _ _ => true
  | _ => false

/-- The peer ends the stream, and the timer that is still armed expires. -/
def timeoutAfterEnd : List ServerAction :=
  .accept 7 :: List.replicate 5 (.acceptor true) ++
    [.wait 0 [(7, EPOLLIN)], .lookup 0, .readFails 0] ++ List.replicate 12 (.close 0) ++
      [.expire 0, .check 0, .post 0, .begin 0, .timerClose 0]

/-- The timeout of a connection that the end of the stream has closed closes it again, without
any call of `active_close` by the user. -/
theorem closed_again_by_timeout :
    ¬ ∀ (n : Nat) (elEvfd : Nat → Int) (s : Server),
      ReachBy Server.step (fun _ a ↦ ofUserClose a = false) (init n elEvfd) s →
        ∀ c, (s.conns c).closes ≤ 1 := by
  intro h
  have hrun : (run Server.step (init 1 fun _ ↦ 3) timeoutAfterEnd).isSome := by decide +kernel
  have hcloses : ∀ t ∈ run Server.step (init 1 fun _ ↦ 3) timeoutAfterEnd,
      (conns t 0).closes = 2 := by decide +kernel
  obtain ⟨s, hs⟩ := Option.isSome_iff_exists.mp hrun
  have honce := h 1 (fun _ ↦ 3) s (reachBy_of_run hs (by decide +kernel)) 0
  rw [hcloses s hs] at honce
  omega

end Server

end ConcurrentServer.Net
