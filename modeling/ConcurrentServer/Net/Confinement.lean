import ConcurrentServer.Net.Closing
import ConcurrentServer.Net.ConnTimers

/-!
# What the loops share

`src/net/event_loop.cpp`, `src/net/tcp_conn.cpp:33–113`, `src/net/tests/echo_server.cpp:28–38`.
Where every message callback sends on and closes its own connection only, a connection is worked on
by the thread of its loop and no other loop's. What a step of that thread can change elsewhere is
the timer, the list of connections and the table of descriptors.
-/

namespace ConcurrentServer.Net
open ConcurrentServer.Base

/-- The loop whose thread makes the step. -/
def ServerAction.thread : ServerAction → Option Nat
  | .wait l _ | .lookup l | .readFails l | .readData l | .message l | .send l _ _ _
  | .userClose l _ | .endMessage l | .writeFails l | .writeSome l _ | .writeEnd l | .ctl l _
  | .close l | .hup l => some l
  | .accept _ | .acceptor _ | .expire _ | .check _ | .post _ | .begin _ | .timerClose _ => none

/-- The loop that the thread's next `epoll_ctl` concerns, as it was read from a connection. -/
def IoPc.ctlLoop : IoPc → Option Nat
  | .message _ (.sendCtl l _ _ _) _ | .writeCtl _ l _ _ _ _ | .closing _ (.delCtl l _) _
  | .userClosing _ _ (.delCtl l _) _ => some l
  | _ => none

/-- The thread of loop `l` is at work on its own loop and on one connection. -/
structure IoPc.Confined (l : Nat) (pc : IoPc) : Prop where
  ctl : ∀ l', pc.ctlLoop = some l' → l' = l
  other : ∀ d, pc.other = some d → pc.own = some d

namespace Server

variable {s t u : Server} {a : ServerAction} {l : Nat}

/-- A message callback sends on and closes the connection that it was called for. -/
def OwnOnly (s : Server) : ServerAction → Prop
  | .send l d _ _ | .userClose l d => (s.io l).own = some d
  | _ => True

instance (s : Server) (a : ServerAction) : Decidable (OwnOnly s a) := by
  cases a <;> unfold OwnOnly <;> exact inferInstance

/-- Every thread is at work on its own loop and on one of the connections of this loop. -/
structure Confined (s : Server) : Prop where
  known : s.Known
  threads : s.NoOtherThread
  places : ∀ l, (s.io l).Confined l

/-- Before the first step. -/
theorem confined_init (n : Nat) (elEvfd : Nat → Int) : (init n elEvfd).Confined where
  known := known_init n elEvfd
  threads := noOtherThread_init n elEvfd
  places _ := ⟨nofun, nofun⟩

/-- One thread has moved. -/
theorem places_setIo (h : ∀ l, (s.io l).Confined l) (io : u.io = s.io) {pc : IoPc}
    (new : pc.Confined l) (l' : Nat) : ((u.setIo l pc).io l').Confined l' := by
  rw [setIo_io, io]
  by_cases hl : l' = l
  · rw [hl, Function.update_self]
    exact new
  · rw [Function.update_of_ne hl]
    exact h l'

/-- The next statement of `do_close` reads the loop of the connection. -/
theorem ctlLoop_closeNext {c : Nat} {p : ClosePc} {l' : Nat} {fd : Int}
    (h : s.closeNext c p = .delCtl l' fd) : l' = (s.conns c).tcLoop := by
  cases p with
  | delMap fd' =>
    cases h
    rfl
  | doClean p =>
    rcases s.closeNext_doClean c p with hend | ⟨p', hon⟩
    · rw [hend] at h
      cases h
    · rw [hon] at h
      cases h
  | _ => cases h

/-- A move of a thread takes it to a place in its own loop. -/
theorem IoMove.confined {pc pc' : IoPc} (hok : s.OwnOnly a) (at_ : s.io l = pc)
    (h : IoMove s l a pc pc') : pc'.Confined l := by
  cases h with
  | userClose c d batch known =>
    have hown : (s.io l).own = some d := hok
    rw [at_] at hown
    cases hown
    exact ⟨nofun, fun _ h ↦ h⟩
  | _ => exact ⟨nofun, nofun⟩

/-- Every step. -/
theorem Confined.step (h : s.Confined) (hok : s.OwnOnly a) (hstep : Step s a t) : t.Confined := by
  refine ⟨h.known.step hstep, h.threads.step hstep, ?_⟩
  have own {l c : Nat} {pc : IoPc} (at_ : s.io l = pc) (hpc : pc.own = some c) :
      (s.conns c).tcLoop = l := (h.known.own l c (by rw [at_]; exact hpc)).2
  cases hstep with
  | io l a pc pc' at_ move => exact places_setIo h.places rfl (move.confined hok at_)
  | cancel l c id batch at_ => exact places_setIo h.places rfl ⟨nofun, nofun⟩
  | messageAdd l c p batch at_ =>
    refine places_setIo h.places (addStmt_io s c p) ?_
    cases p <;> exact ⟨nofun, nofun⟩
  | send l c d len batch at_ known =>
    refine places_setIo h.places rfl ⟨?_, nofun⟩
    intro l' hl'
    cases hl'
    have hown : (s.io l).own = some d := hok
    exact (h.known.own l d hown).2
  | sendCtl l ok c l' op fd ev batch at_ => exact places_setIo h.places rfl ⟨nofun, nofun⟩
  | writeDel l c op ev batch at_ drained call =>
    refine places_setIo h.places rfl ⟨?_, nofun⟩
    intro l' hl'
    cases hl'
    exact own at_ rfl
  | writeCtl l ok c l' op fd ev batch at_ => exact places_setIo h.places rfl ⟨nofun, nofun⟩
  | hupMap l fd batch at_ => exact places_setIo h.places rfl ⟨nofun, nofun⟩
  | hupCtl l ok fd batch at_ => exact places_setIo h.places rfl ⟨nofun, nofun⟩
  | close l c p batch at_ body =>
    refine places_setIo h.places (closeStmt_io s c p) ⟨?_, nofun⟩
    intro l' hl'
    cases hp : s.closeNext c p with
    | delCtl m fd =>
      rw [hp] at hl'
      cases hl'
      rw [ctlLoop_closeNext hp]
      exact own at_ rfl
    | _ => rw [hp] at hl'; cases hl'
  | userCloseStmt l c d p batch at_ body =>
    have hsame : (s.io l).own = some d := (h.places l).other d (by rw [at_]; rfl)
    refine places_setIo h.places (closeStmt_io s d p) ⟨?_, ?_⟩
    · intro l' hl'
      cases hp : s.closeNext d p with
      | delCtl m fd =>
        rw [hp] at hl'
        cases hl'
        rw [ctlLoop_closeNext hp]
        exact (h.known.own l d hsame).2
      | _ => rw [hp] at hl'; cases hl'
    · intro e he
      cases he
      rw [at_] at hsame
      exact hsame
  | acceptAdd ok c p at_ =>
    intro l
    rw [setAcceptor_io, addStmt_io]
    exact h.places l
  | timerClose k tn p node at_ body =>
    intro l
    rw [setStage_io, closeStmt_io]
    exact h.places l
  | _ => exact h.places

/-! ### What a loop's thread leaves alone -/

/-- Nothing but loop `l`, its connections, the timer, the list and the descriptors has changed. For
another loop the kernel may have dropped a descriptor that was closed. -/
structure Frame (s : Server) (l : Nat) (t : Server) : Prop where
  conns : ∀ c, (s.conns c).tcLoop ≠ l → t.conns c = s.conns c
  maps : ∀ l' ≠ l, (t.loops l').epEventMap = (s.loops l').epEventMap ∧
    (t.loops l').epListenFds = (s.loops l').epListenFds
  interest : ∀ l' ≠ l, ∀ fd,
    (t.loops l').interest fd = (s.loops l').interest fd ∨ t.fdOpen fd = false
  closed : ∀ fd, s.fdOpen fd = false → t.fdOpen fd = false
  io : ∀ l' ≠ l, t.io l' = s.io l'
  acceptor : t.acceptor = s.acceptor ∧ t.connCount = s.connCount ∧ t.tsNextLoop = s.tsNextLoop

namespace Frame

/-- Two changes after each other. -/
theorem trans (h : s.Frame l t) (h' : t.Frame l u) : s.Frame l u where
  conns c hc := by
    have ht := h.conns c hc
    rw [← ht] at hc
    rw [h'.conns c hc, ht]
  maps l' hl := ⟨(h'.maps l' hl).1.trans (h.maps l' hl).1, (h'.maps l' hl).2.trans (h.maps l' hl).2⟩
  interest l' hl fd := by
    rcases h'.interest l' hl fd with hsame | hclosed
    · rw [hsame]
      exact (h.interest l' hl fd).imp_right (h'.closed fd)
    · exact Or.inr hclosed
  closed fd hfd := h'.closed fd (h.closed fd hfd)
  io l' hl := (h'.io l' hl).trans (h.io l' hl)
  acceptor := ⟨h'.acceptor.1.trans h.acceptor.1, h'.acceptor.2.1.trans h.acceptor.2.1,
    h'.acceptor.2.2.trans h.acceptor.2.2⟩

/-- Only the timer, the list or the loop's own thread has changed. -/
theorem of_same (conns : t.conns = s.conns) (loops : t.loops = s.loops)
    (fdOpen : t.fdOpen = s.fdOpen) (io : ∀ l' ≠ l, t.io l' = s.io l')
    (acceptor : t.acceptor = s.acceptor ∧ t.connCount = s.connCount ∧ t.tsNextLoop = s.tsNextLoop) :
    s.Frame l t where
  conns c _ := by rw [conns]
  maps l' _ := by rw [loops]; exact ⟨rfl, rfl⟩
  interest l' _ fd := by rw [loops]; exact Or.inl rfl
  closed fd hfd := by rw [fdOpen]; exact hfd
  io := io
  acceptor := acceptor

theorem refl (s : Server) (l : Nat) : s.Frame l s :=
  of_same rfl rfl rfl (fun _ _ ↦ rfl) ⟨rfl, rfl, rfl⟩

/-- The thread moves on. -/
theorem setIo (s : Server) (l : Nat) (pc : IoPc) : s.Frame l (s.setIo l pc) :=
  of_same rfl rfl rfl (fun _ hl ↦ Function.update_of_ne hl _ _) ⟨rfl, rfl, rfl⟩

/-- After a change the thread moves on. -/
theorem andSetIo (h : s.Frame l t) (pc : IoPc) : s.Frame l (t.setIo l pc) := h.trans (.setIo t l pc)

/-- The loop's epoller changes. -/
theorem modLoop (s : Server) (l : Nat) (f : Epoll Callback → Epoll Callback) :
    s.Frame l (s.modLoop l f) where
  conns _ _ := rfl
  maps l' hl := by rw [modLoop_loops, Function.update_of_ne hl]; exact ⟨rfl, rfl⟩
  interest l' hl fd := by rw [modLoop_loops, Function.update_of_ne hl]; exact Or.inl rfl
  closed _ hfd := hfd
  io _ _ := rfl
  acceptor := ⟨rfl, rfl, rfl⟩

/-- One of the loop's connections changes. -/
theorem modConn {c : Nat} (own : (s.conns c).tcLoop = l) (f : Conn → Conn) :
    s.Frame l (s.modConn c f) where
  conns c' hc := by
    rw [modConn_conns]
    apply Function.update_of_ne
    rintro rfl
    exact hc own
  maps _ _ := ⟨rfl, rfl⟩
  interest _ _ _ := Or.inl rfl
  closed _ hfd := hfd
  io _ _ := rfl
  acceptor := ⟨rfl, rfl, rfl⟩

/-- A descriptor is closed. -/
theorem closeFd (s : Server) (l : Nat) (fd : Int) : s.Frame l (s.closeFd fd) where
  conns _ _ := rfl
  maps _ _ := ⟨rfl, rfl⟩
  interest l' _ fd' := by
    by_cases hfd : fd' = fd
    · rw [hfd, closeFd_fdOpen, Function.update_self]
      exact Or.inr rfl
    · left
      change Function.update (s.loops l').interest fd none fd' = _
      exact Function.update_of_ne hfd _ _
  closed fd' hfd := by
    rw [closeFd_fdOpen]
    by_cases hfd' : fd' = fd
    · rw [hfd', Function.update_self]
    · rw [Function.update_of_ne hfd', hfd]
  io _ _ := rfl
  acceptor := ⟨rfl, rfl, rfl⟩

/-- A statement of `add_new_tcp_conn`. -/
theorem addStmt {c : Nat} (own : (s.conns c).tcLoop = l) (p : AddPc) :
    s.Frame l (s.addStmt c p) := by
  cases p with
  | setTimerId id => exact modConn own fun tc ↦ { tc with tcTimerId := id }
  | _ => exact of_same rfl rfl rfl (fun _ _ ↦ rfl) ⟨rfl, rfl, rfl⟩

/-- A statement of `do_close`. -/
theorem closeStmt {c : Nat} (own : (s.conns c).tcLoop = l) {p : ClosePc}
    (ctl : ∀ m fd, p = .delCtl m fd → m = l) : s.Frame l (s.closeStmt c p) := by
  cases p with
  | enter => exact modConn own fun tc ↦ { tc with closes := tc.closes + 1 }
  | loadFd => exact refl s l
  | delMap fd =>
    unfold Server.closeStmt
    rw [own]
    exact modLoop s l _
  | delCtl m fd =>
    obtain rfl := ctl m fd rfl
    exact modLoop s m fun e ↦ epollDelCtl e fd true
  | clearBufs => exact modConn own fun tc ↦ { tc with tcObufLength := 0 }
  | takeFd => exact refl s l
  | dropFd fd => exact modConn own fun tc ↦ { tc with tcFd := -1 }
  | closeFd fd => exact closeFd s l fd
  | doClean q =>
    have hlist : s.Frame l { s with tsTcpConnections := s.cleanList q } :=
      of_same rfl rfl rfl (fun _ _ ↦ rfl) ⟨rfl, rfl, rfl⟩
    exact hlist.trans (modConn (s := { s with tsTcpConnections := s.cleanList q }) own fun tc ↦
      { tc with closed := if s.cleanNext c q = none then tc.closed + 1 else tc.closed })
  | ret => exact refl s l

end Frame

/-! ### The statements of a loop's thread -/

/-- The thread is inside a callback of one of its loop's connections. -/
theorem Confined.tcLoop (h : s.Confined) {c : Nat} {pc : IoPc} (at_ : s.io l = pc)
    (own : pc.own = some c) : (s.conns c).tcLoop = l :=
  (h.known.own l c (by rw [at_]; exact own)).2

/-- `execute_cbs`. -/
theorem frame_lookupStep (batch : List (Int × Mask)) : s.Frame l (s.lookupStep l batch) := by
  unfold lookupStep
  split
  · exact .setIo s l _
  · split
    · exact .of_same rfl rfl rfl (fun _ _ ↦ rfl) ⟨rfl, rfl, rfl⟩
    · split <;> exact .setIo s l _

/-- `ts_message_cb`. -/
theorem frame_messageStep {c : Nat} {p : MsgPc} {batch : List (Int × Mask)}
    (own : (s.conns c).tcLoop = l) (hstep : s.messageStep l c batch p = some t) :
    s.Frame l t := by
  cases p with
  | getTimerId =>
    cases hstep
    exact .setIo s l _
  | cancel id =>
    cases hstep
    have htimer : s.Frame l { s with tsTimer := s.tsTimer.cancel id } :=
      .of_same rfl rfl rfl (fun _ _ ↦ rfl) ⟨rfl, rfl, rfl⟩
    exact htimer.andSetIo _
  | addNewTcpConn p =>
    cases hstep
    exact (Frame.addStmt own p).andSetIo _
  | user | sendCtl l' op fd ev | ret => cases hstep

/-- `send` on a connection of the loop. -/
theorem frame_sendStep {d : Nat} (own : (s.conns d).tcLoop = l) (c len : Nat) (ok : Bool)
    (batch : List (Int × Mask)) : s.Frame l (s.sendStep l c d len ok batch) := by
  have hput := Frame.modConn own fun tc ↦ { tc with tcObufLength := tc.tcObufLength + len }
  unfold sendStep
  split
  · exact .refl s l
  · split
    · refine (hput.trans ?_).andSetIo _
      unfold addToPoller
      have hsame : ((s.modConn d fun tc ↦
          { tc with tcObufLength := tc.tcObufLength + len }).conns d).tcLoop = l := by
        rw [modConn_conns, Function.update_self]
        exact own
      rw [hsame]
      exact .modLoop _ l _
    · exact hput

/-- The end of `do_write`. -/
theorem frame_writeEndStep {c : Nat} (own : (s.conns c).tcLoop = l) (batch : List (Int × Mask)) :
    s.Frame l (s.writeEndStep l c batch) := by
  unfold writeEndStep
  split
  · rw [own]
    dsimp only
    split
    · exact (Frame.modLoop s l _).andSetIo _
    · exact (Frame.modLoop s l _).andSetIo _
  · exact .setIo s l _

/-- A pending `epoll_ctl`. -/
theorem Confined.frame_ctlStep (h : s.Confined) {ok : Bool} (hstep : s.ctlStep l ok = some t) :
    s.Frame l t := by
  unfold ctlStep at hstep
  split at hstep
  · rename_i c l' op fd ev batch at_
    cases hstep
    rw [(h.places l).ctl l' (by rw [at_]; rfl)]
    exact (Frame.modLoop s l _).andSetIo _
  · rename_i c l' op fd ev batch at_
    cases hstep
    rw [(h.places l).ctl l' (by rw [at_]; rfl)]
    exact (Frame.modLoop s l _).andSetIo _
  · cases hstep
    exact (Frame.modLoop s l _).andSetIo _
  · cases hstep

/-- `do_close`. -/
theorem Confined.frame_closeStep (h : s.Confined) (hstep : s.closeStep l = some t) :
    s.Frame l t := by
  unfold closeStep at hstep
  split at hstep
  · rename_i c p batch at_
    split at hstep
    · cases hstep
      exact .setIo s l _
    · cases hstep
      refine (Frame.closeStmt (h.tcLoop at_ rfl) fun m fd hp ↦ ?_).andSetIo _
      exact (h.places l).ctl m (by rw [at_, hp]; rfl)
  · rename_i c d p batch at_
    split at hstep
    · cases hstep
      exact .setIo s l _
    · cases hstep
      have hown : (s.io l).own = some d := (h.places l).other d (by rw [at_]; rfl)
      refine (Frame.closeStmt (h.known.own l d hown).2 fun m fd hp ↦ ?_).andSetIo _
      exact (h.places l).ctl m (by rw [at_, hp]; rfl)
  · cases hstep

/-- Every statement of a loop's thread. -/
theorem Confined.frame (h : s.Confined) (hok : s.OwnOnly a) (hstep : s.step a = some t)
    (thread : a.thread = some l) : s.Frame l t := by
  unfold Server.step at hstep
  split at hstep
  · cases hstep
  cases a with
  | wait m batch =>
    cases thread
    simp only [stepLive, Option.ite_none_right_eq_some, Option.some.injEq] at hstep
    obtain ⟨-, rfl⟩ := hstep
    exact .setIo s l _
  | lookup m =>
    cases thread
    simp only [stepLive] at hstep
    split at hstep
    · cases hstep
      exact frame_lookupStep _
    · cases hstep
  | readFails m | readData m =>
    cases thread
    simp only [stepLive] at hstep
    split at hstep
    · cases hstep
      exact .setIo s l _
    · cases hstep
  | message m =>
    cases thread
    simp only [stepLive] at hstep
    split at hstep
    · rename_i c p batch at_
      exact frame_messageStep (h.tcLoop at_ rfl) hstep
    · cases hstep
  | send m d len ok =>
    cases thread
    simp only [stepLive] at hstep
    split at hstep
    · simp only [Option.ite_none_right_eq_some, Option.some.injEq] at hstep
      obtain ⟨-, rfl⟩ := hstep
      exact frame_sendStep (h.known.own l d hok).2 _ len ok _
    · cases hstep
  | userClose m d | writeFails m =>
    cases thread
    simp only [stepLive] at hstep
    split at hstep
    · simp only [Option.ite_none_right_eq_some, Option.some.injEq] at hstep
      obtain ⟨-, rfl⟩ := hstep
      exact .setIo s l _
    · cases hstep
  | endMessage m =>
    cases thread
    simp only [stepLive] at hstep
    split at hstep
    · cases hstep
      exact .setIo s l _
    · cases hstep
      exact .setIo s l _
    · cases hstep
  | writeSome m n =>
    cases thread
    simp only [stepLive] at hstep
    split at hstep
    · rename_i c batch at_
      simp only [Option.ite_none_right_eq_some, Option.some.injEq] at hstep
      obtain ⟨-, rfl⟩ := hstep
      exact .modConn (h.tcLoop at_ rfl) fun tc ↦ { tc with tcObufLength := tc.tcObufLength - n }
    · cases hstep
  | writeEnd m =>
    cases thread
    simp only [stepLive] at hstep
    split at hstep
    · rename_i c batch at_
      cases hstep
      exact frame_writeEndStep (h.tcLoop at_ rfl) batch
    · cases hstep
  | ctl m ok =>
    cases thread
    exact h.frame_ctlStep hstep
  | close m =>
    cases thread
    exact h.frame_closeStep hstep
  | hup m =>
    cases thread
    simp only [stepLive] at hstep
    split at hstep
    · cases hstep
      exact (Frame.modLoop s l _).andSetIo _
    · cases hstep
  | accept | acceptor | expire | check | post | begin | timerClose => cases thread

end Server

/-- In every run in which message callbacks send on and close their own connections only, a
connection is worked on by the thread of its loop and by no other loop's; and whatever a loop's
thread does next, it leaves the connections, the epollers and the threads of the other loops as they
are, but for descriptors that the kernel drops because they are closed. -/
theorem loops_share_nothing {n : Nat} {elEvfd : Nat → Int} {s : Server}
    (h : ReachBy Server.step Server.OwnOnly (Server.init n elEvfd) s) :
    (∀ l c, (s.io l).own = some c ∨ (s.io l).other = some c → (s.conns c).tcLoop = l ∧ l < n) ∧
      ∀ l a t, s.OwnOnly a → a.thread = some l → s.step a = some t → s.Frame l t := by
  have hinv : s.Confined ∧ s.tsThreadNum = n := by
    apply h.invariant (P := fun s ↦ s.Confined ∧ s.tsThreadNum = n)
      ⟨Server.confined_init n elEvfd, rfl⟩
    rintro s a t ⟨hs, hn⟩ hok hstep
    have hmove := Server.step_inversion hstep
    exact ⟨hs.step hok hmove, hmove.tsThreadNum.trans hn⟩
  obtain ⟨hconfined, hn⟩ := hinv
  refine ⟨?_, fun l a t hok thread hstep ↦ hconfined.frame hok hstep thread⟩
  intro l c hat
  have hown : (s.io l).own = some c := hat.elim id ((hconfined.places l).other c)
  refine ⟨(hconfined.known.own l c hown).2, ?_⟩
  by_contra hge
  rw [hconfined.threads l (by omega)] at hown
  cases hown

/-- Each of two loops has a connection: the first answers a message, the second reads. -/
def oneConnectionEach : List ServerAction :=
  .accept 7 :: List.replicate 5 (.acceptor true) ++
    .accept 8 :: List.replicate 5 (.acceptor true) ++
    [.wait 0 [(7, EPOLLIN)], .lookup 0, .readData 0, .wait 1 [(8, EPOLLIN)], .lookup 1] ++
      List.replicate 5 (.message 0) ++ [.send 0 0 12 true, .ctl 0 true]

/-- The first loop's thread leaves the second connection alone. -/
theorem two_loops_share_nothing :
    ∃ s, run Server.step (Server.init 2 fun l ↦ 3 + l) oneConnectionEach = some s ∧
      (s.io 0).own = some 0 ∧ (s.io 1).own = some 1 ∧
      (∀ l c, (s.io l).own = some c ∨ (s.io l).other = some c → (s.conns c).tcLoop = l ∧ l < 2) ∧
        ∀ l a t, s.OwnOnly a → a.thread = some l → s.step a = some t → s.Frame l t := by
  have hrun : (run Server.step (Server.init 2 fun l ↦ 3 + l) oneConnectionEach).isSome := by
    decide +kernel
  have hown : ∀ t ∈ run Server.step (Server.init 2 fun l ↦ 3 + l) oneConnectionEach,
      (t.io 0).own = some 0 ∧ (t.io 1).own = some 1 := by
    decide +kernel
  obtain ⟨s, hs⟩ := Option.isSome_iff_exists.mp hrun
  exact ⟨s, hs, (hown s hs).1, (hown s hs).2,
    loops_share_nothing (reachBy_of_run hs (by decide +kernel))⟩

end ConcurrentServer.Net
