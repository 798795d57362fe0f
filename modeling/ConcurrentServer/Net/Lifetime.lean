import ConcurrentServer.Base.Run
import ConcurrentServer.Net.ConnTimers
import Mathlib.Data.Set.Card

/-!
# The owners of a connection

Every shared pointer to a `TcpConnection` in every run: the read callback in `ep_event_map`
(`src/net/tcp_conn.cpp:26–31`), the entries of `ts_tcp_connections` and the timer closures
(`src/net/tcp_server.h:43–55`), and the local ones of `do_accept`, `do_read` and `do_close`.
`execute_cbs` (`src/net/epoll.cpp:101–129`) calls a stored callback in place, so that erasing
its entry takes the pointer away from under the call.
-/

namespace ConcurrentServer.Net
open ConcurrentServer.Base

/-- A place that can hold a shared pointer to a connection. -/
inductive OwnerPlace
  /-- The read callback stored for `fd` at loop `l`. -/
  | callback (l : Nat) (fd : Int)
  /-- The `i`-th entry of `ts_tcp_connections`. -/
  | listed (i : Nat)
  /-- The closure of timer node `k`. -/
  | timer (k : Nat)
  /-- The local `conn` of `do_accept`. -/
  | accepting
  /-- The argument of `tc_message_cb` on the thread of loop `l`. -/
  | message (l : Nat)
  /-- The argument of `do_clean` on the thread of loop `l`. -/
  | loopClean (l : Nat)
  /-- The argument of `do_clean` in the callback of timer node `k`. -/
  | timerClean (k : Nat)
  deriving DecidableEq, Repr

/-- The thread is inside `do_read`, `do_write` or `do_close` of `c`. -/
def IoPc.inside (c : Nat) (pc : IoPc) : Bool := pc.own = some c || pc.other = some c

/-- The connection passed to the message callback that the thread is inside. -/
def IoPc.passed : IoPc → Option Nat
  | .message _ .ret _ => none
  | .message c _ _ | .userClosing c _ _ _ => some c
  | _ => none

/-- The connection passed to the `do_clean` that the thread calls. -/
def IoPc.cleaned : IoPc → Option Nat
  | .closing c (.doClean _) _ | .userClosing _ c (.doClean _) _ => some c
  | _ => none

namespace Server

/-- The place holds a shared pointer to `c`. -/
def Owns (s : Server) (c : Nat) : OwnerPlace → Prop
  | .callback l fd =>
    ∃ entry, (s.loops l).epEventMap fd = some entry ∧ entry.readCallback = some (.doRead c)
  | .listed i => s.tsTcpConnections[i]? = some c
  | .timer k => ∃ tn, s.tsTimer.nodes k = some tn ∧ tn.job = c ∧ tn.stage.holds = true
  | .accepting => s.acceptor.conn = some c
  | .message l => (s.io l).passed = some c
  | .loopClean l => (s.io l).cleaned = some c
  | .timerClean k =>
    ∃ tn p, s.tsTimer.nodes k = some tn ∧ tn.job = c ∧ tn.stage = .running (.doClean p)

/-- The number of shared owners of `c`. -/
noncomputable def ownerCount (s : Server) (c : Nat) : ℕ∞ := Set.encard {p | s.Owns c p}

/-- Some thread is inside `do_read`, `do_write` or `do_close` of `c`. -/
def Busy (s : Server) (c : Nat) : Prop :=
  (∃ l, (s.io l).inside c = true) ∨
    ∃ k tn p, s.tsTimer.nodes k = some tn ∧ tn.job = c ∧ tn.stage = .running p

/-- The connection whose timer callback an action begins. -/
def begins (s : Server) : ServerAction → Option Nat
  | .begin k => (s.tsTimer.nodes k).map TimerNode.job
  | _ => none

/-- The condition on a step: a timer callback begins only while no loop's thread is inside the
connection, no thread calls into a connection whose timer callback has begun, and the timer
has made fewer than 2³² − 1 nodes. -/
structure KeepsOwner (s : Server) (a : ServerAction) : Prop where
  begin : ∀ c ∈ s.begins a, ∀ l < s.tsThreadNum, (s.io l).inside c = false
  calls : ∀ c ∈ s.callsInto a, ∀ k < s.tsTimer.tmCount, ∀ tn ∈ s.tsTimer.nodes k,
    tn.job = c → tn.stage.begun = false
  bound : s.tsTimer.tmCount < 2 ^ 32 - 1

instance (s : Server) (a : ServerAction) : Decidable (s.KeepsOwner a) :=
  decidable_of_iff
    ((∀ c ∈ s.begins a, ∀ l < s.tsThreadNum, (s.io l).inside c = false) ∧
      (∀ c ∈ s.callsInto a, ∀ k < s.tsTimer.tmCount, ∀ tn ∈ s.tsTimer.nodes k,
        tn.job = c → tn.stage.begun = false) ∧ s.tsTimer.tmCount < 2 ^ 32 - 1)
    ⟨fun h ↦ ⟨h.1, h.2.1, h.2.2⟩, fun h ↦ ⟨h.1, h.2, h.3⟩⟩

/-- A timer of `c` is armed or about to be made. -/
def Pending (s : Server) (c : Nat) : Prop :=
  s.acceptor.arms c = true ∨
    (∃ k tn, s.tsTimer.nodes k = some tn ∧ tn.job = c ∧ s.armed tn = true) ∨
      ∃ l batch, s.io l = .message c (.addNewTcpConn .runAfter) batch

/-- What the condition keeps: a loop's thread is inside no connection whose timer callback has
begun, and until it begins such a callback is pending for every connection. -/
structure Owned (s : Server) : Prop where
  threads : s.NoOtherThread
  known : s.Known
  ids : s.TimerIds
  apart : ∀ l c, (s.io l).inside c = true → ¬ s.tsTimer.Begun c
  pending : ∀ c < s.connCount, ¬ s.tsTimer.Begun c → s.Pending c

variable {s t : Server} {a : ServerAction} {c : Nat}

/-! ### Callbacks that have begun -/

/-- A node that has begun has done so before the step, or begins in it. -/
theorem Step.begun (hstep : Step s a t) (h : t.tsTimer.Begun c) :
    s.tsTimer.Begun c ∨ s.begins a = some c := by
  obtain ⟨k, tn, hk, hj, hb⟩ := h
  have added (d : Nat) (hk : (s.tsTimer.runAfter d).nodes k = some tn) :
      s.tsTimer.Begun c := by
    rw [TimerState.nodes_runAfter] at hk
    split at hk
    · obtain rfl := Option.some.inj hk
      cases hb
    · exact ⟨k, tn, hk, hj, hb⟩
  cases hstep with
  | acceptAdd ok d p at_ =>
    cases p with
    | runAfter => exact Or.inl (added d hk)
    | _ => exact Or.inl ⟨k, tn, hk, hj, hb⟩
  | messageAdd l d p batch at_ =>
    cases p with
    | runAfter => exact Or.inl (added d hk)
    | _ => exact Or.inl ⟨k, tn, hk, hj, hb⟩
  | close l d p batch at_ body =>
    rw [setIo_tsTimer, closeStmt_tsTimer] at hk
    exact Or.inl ⟨k, tn, hk, hj, hb⟩
  | userCloseStmt l e d p batch at_ body =>
    rw [setIo_tsTimer, closeStmt_tsTimer] at hk
    exact Or.inl ⟨k, tn, hk, hj, hb⟩
  | timer k' tn' a stage node move =>
    obtain ⟨tn₀, h₀, -, hj₀, hst⟩ := TimerState.node_of_setStage hk
    by_cases hkk : k = k'
    · subst hkk
      obtain rfl : tn' = tn₀ := Option.some.inj (node.symm.trans h₀)
      cases move with
      | begin at_ => exact Or.inr (by simp [begins, node, ← hj₀, hj])
      | done at_ => exact Or.inl ⟨k, tn', node, hj₀ ▸ hj, by rw [at_]; rfl⟩
      | _ => simp [hst, TimerStage.begun] at hb
    · exact Or.inl ⟨k, tn₀, h₀, hj₀ ▸ hj, by rwa [hst, if_neg hkk] at hb⟩
  | timerClose k' tn' p node at_ body =>
    rw [setStage_tsTimer, closeStmt_tsTimer] at hk
    obtain ⟨tn₀, h₀, -, hj₀, hst⟩ := TimerState.node_of_setStage hk
    refine Or.inl ⟨k, tn₀, h₀, hj₀ ▸ hj, ?_⟩
    by_cases hkk : k = k'
    · subst hkk
      obtain rfl : tn' = tn₀ := Option.some.inj (node.symm.trans h₀)
      rw [at_]
      rfl
    · rwa [hst, if_neg hkk] at hb
  | _ => exact Or.inl ⟨k, tn, hk, hj, hb⟩

/-- What has begun stays begun. -/
theorem Step.begun_mono (hstep : Step s a t) (numbered : s.tsTimer.Numbered)
    (h : s.tsTimer.Begun c) : t.tsTimer.Begun c := by
  obtain ⟨k, tn, hk, hj, hb⟩ := h
  have added (d : Nat) : (s.tsTimer.runAfter d).Begun c := by
    refine ⟨k, tn, ?_, hj, hb⟩
    have hlt := (numbered k tn hk).1
    rw [TimerState.nodes_runAfter, if_neg (by omega), hk]
  have staged (k' : Nat) (stage : TimerStage ClosePc)
      (hst : k = k' → stage.begun = true) : (s.tsTimer.setStage k' stage).Begun c := by
    by_cases hkk : k = k'
    · refine ⟨k, { tn with stage := stage }, ?_, hj, hst hkk⟩
      rw [TimerState.nodes_setStage, if_pos hkk, ← hkk, hk, Option.map_some]
    · exact ⟨k, tn, by rw [TimerState.nodes_setStage, if_neg hkk, hk], hj, hb⟩
  cases hstep with
  | acceptAdd ok d p at_ =>
    cases p with
    | runAfter => exact added d
    | _ => exact ⟨k, tn, hk, hj, hb⟩
  | messageAdd l d p batch at_ =>
    cases p with
    | runAfter => exact added d
    | _ => exact ⟨k, tn, hk, hj, hb⟩
  | close l d p batch at_ body =>
    rw [setIo_tsTimer, closeStmt_tsTimer]
    exact ⟨k, tn, hk, hj, hb⟩
  | userCloseStmt l e d p batch at_ body =>
    rw [setIo_tsTimer, closeStmt_tsTimer]
    exact ⟨k, tn, hk, hj, hb⟩
  | timer k' tn' a stage node move =>
    refine staged k' stage ?_
    rintro rfl
    obtain rfl : tn' = tn := Option.some.inj (node.symm.trans hk)
    cases move with
    | begin at_ => rfl
    | done at_ => rfl
    | expire at_ => simp [at_, TimerStage.begun] at hb
    | pass at_ key => simp [at_, TimerStage.begun] at hb
    | drop at_ key => simp [at_, TimerStage.begun] at hb
    | post at_ => simp [at_, TimerStage.begun] at hb
  | timerClose k' tn' p node at_ body =>
    rw [setStage_tsTimer, closeStmt_tsTimer]
    exact staged k' _ fun _ ↦ rfl
  | _ => exact ⟨k, tn, hk, hj, hb⟩

/-! ### Pending timers -/

/-- What is pending is read off three components. -/
theorem Pending.congr (h : s.Pending c) (acceptor : t.acceptor = s.acceptor) (io : t.io = s.io)
    (timer : t.tsTimer = s.tsTimer) : t.Pending c := by
  simp only [Pending, armed, acceptor, io, timer]
  exact h

/-- A thread moves that was not about to make a timer of the connection. -/
theorem Pending.setIo (h : s.Pending c) {l : Nat} {pc₀ pc : IoPc} (at_ : s.io l = pc₀)
    (hpc : ∀ batch, pc₀ ≠ .message c (.addNewTcpConn .runAfter) batch) :
    (s.setIo l pc).Pending c := by
  refine h.imp_right (Or.imp_right ?_)
  rintro ⟨l', batch, hl'⟩
  have hne : l' ≠ l := by
    rintro rfl
    exact hpc batch (at_ ▸ hl')
  exact ⟨l', batch, by rw [setIo_io, Function.update_of_ne hne, hl']⟩

/-- The acceptor's thread moves on without dropping a timer that it was to make. -/
theorem Pending.setAcceptor (h : s.Pending c) {pc : AcceptPc}
    (hpc : s.acceptor.arms c = true → pc.arms c = true) : (s.setAcceptor pc).Pending c :=
  h.imp_left hpc

/-- The acceptor's thread does so after a change elsewhere. -/
theorem Pending.moveAcceptor (h : s.Pending c) {pc pc' : AcceptPc} (at_ : s.acceptor = pc)
    (acceptor : t.acceptor = s.acceptor) (io : t.io = s.io) (timer : t.tsTimer = s.tsTimer)
    (hpc : pc.arms c = true → pc'.arms c = true) : (t.setAcceptor pc').Pending c := by
  refine (h.congr acceptor io timer).setAcceptor fun harms ↦ hpc ?_
  rwa [acceptor, at_] at harms

/-- A statement of `do_close` makes and drops no timer. -/
theorem Pending.closeStmt (h : s.Pending c) (d : Nat) (p : ClosePc) :
    (s.closeStmt d p).Pending c :=
  h.congr (closeStmt_acceptor s d p) (closeStmt_io s d p) (closeStmt_tsTimer s d p)

/-- `run_after` makes an armed node of its connection. -/
theorem armed_runAfter (s : Server) (d : Nat) :
    ∃ k tn, (s.addStmt d .runAfter).tsTimer.nodes k = some tn ∧ tn.job = d ∧
      (s.addStmt d .runAfter).armed tn = true := by
  refine ⟨s.tsTimer.tmCount, ⟨s.tsTimer.nextId, d, .queued⟩, ?_, rfl, if_pos rfl⟩
  change (s.tsTimer.runAfter d).nodes _ = _
  rw [TimerState.nodes_runAfter, if_pos rfl]

/-- `run_after` leaves pending what is. -/
theorem Pending.runAfter (h : s.Pending c) (numbered : s.tsTimer.Numbered)
    (bound : s.tsTimer.tmCount < 2 ^ 32 - 1) (d : Nat) : (s.addStmt d .runAfter).Pending c := by
  refine h.imp_right (Or.imp_left ?_)
  rintro ⟨k, tn, hk, hj, harmed⟩
  have hlt := (numbered k tn hk).1
  refine ⟨k, tn, ?_, hj, ?_⟩
  · change (s.tsTimer.runAfter d).nodes _ = _
    rw [TimerState.nodes_runAfter, if_neg (by omega), hk]
  · have hkey : (s.addStmt d .runAfter).tsTimer.tmIdStateMap tn.tnId =
        s.tsTimer.tmIdStateMap tn.tnId :=
      if_neg (numbered.nextId_fresh (by omega) hk)
    simpa only [armed, hkey] using harmed

/-- A node moves on: what was pending has begun or is still pending. -/
theorem Pending.setStage (h : s.Pending c) {k : Nat} {tn : TimerNode Nat ClosePc}
    {stage : TimerStage ClosePc} (node : s.tsTimer.nodes k = some tn)
    (hst : tn.job = c → s.armed tn = true → s.armed { tn with stage := stage } = true) :
    (s.setStage k stage).Pending c := by
  refine h.imp_right (Or.imp_left ?_)
  rintro ⟨k', tn', hk', hj', harmed⟩
  by_cases hkk : k' = k
  · subst hkk
    obtain rfl : tn = tn' := Option.some.inj (node.symm.trans hk')
    refine ⟨k', { tn with stage := stage }, ?_, hj', hst hj' harmed⟩
    rw [setStage_tsTimer, TimerState.nodes_setStage, if_pos rfl, node, Option.map_some]
  · refine ⟨k', tn', ?_, hj', harmed⟩
    rw [setStage_tsTimer, TimerState.nodes_setStage, if_neg hkk, hk']

/-- Cancelling an id of `d` leaves pending what is pending for another connection. -/
theorem Pending.cancel (h : s.Pending c) {id : Int}
    (hid : ∀ k tn, s.tsTimer.nodes k = some tn → tn.tnId = id → tn.job ≠ c) :
    Pending { s with tsTimer := s.tsTimer.cancel id } c := by
  refine h.imp_right (Or.imp_left ?_)
  rintro ⟨k, tn, hk, hj, harmed⟩
  refine ⟨k, tn, hk, hj, ?_⟩
  have hkey : (s.tsTimer.cancel id).tmIdStateMap tn.tnId = s.tsTimer.tmIdStateMap tn.tnId :=
    if_neg fun he ↦ hid k tn hk he hj
  simpa only [armed, hkey] using harmed

/-- A node's move keeps it armed, unless its callback begins. -/
theorem TimerMove.armed_mono {k : Nat} {tn : TimerNode Nat ClosePc} {stage : TimerStage ClosePc}
    (h : TimerMove s k tn a stage) (hst : stage.begun = false) (harmed : s.armed tn = true) :
    s.armed { tn with stage := stage } = true := by
  cases h with
  | expire at_ => simpa [Server.armed, at_] using harmed
  | pass at_ key => rfl
  | drop at_ key => simp [Server.armed, at_, key] at harmed
  | post at_ => rfl
  | begin at_ => cases hst
  | done at_ => cases hst

/-- Until its callback begins, a timer stays pending. -/
theorem Owned.pending_step (h : s.Owned) (hok : s.KeepsOwner a) (hstep : Step s a t)
    (hc : c < t.connCount) (hb : ¬ t.tsTimer.Begun c) : t.Pending c := by
  have numbered := h.ids.numbered
  have hb₀ : ¬ s.tsTimer.Begun c := fun hs ↦ hb (hstep.begun_mono numbered hs)
  have old (hlt : c < s.connCount) : s.Pending c := h.pending c hlt hb₀
  cases hstep with
  | accept fd idle fresh started =>
    by_cases he : c = s.connCount
    · exact Or.inl (by simp [AcceptPc.arms, he])
    · rw [acceptConn_connCount] at hc
      refine (old (by omega)).imp_left ?_
      rw [idle]
      exact nofun
  | addTask ok d at_ => exact (old hc).moveAcceptor at_ rfl rfl rfl id
  | addTaskCtl ok d l op fd ev at_ => exact (old hc).moveAcceptor at_ rfl rfl rfl id
  | acceptAdd ok d p at_ =>
    rw [setAcceptor_connCount, addStmt_connCount] at hc
    cases p with
    | runAfter =>
      by_cases hcd : c = d
      · exact Or.inr (Or.inl (hcd ▸ armed_runAfter s d))
      · refine ((old hc).runAfter numbered hok.bound d).setAcceptor ?_
        rw [addStmt_acceptor, at_]
        intro harms
        exact absurd (by simpa [AcceptPc.arms] using harms) (Ne.symm hcd)
    | setTimerId id => exact (old hc).moveAcceptor at_ rfl rfl rfl nofun
    | emplaceBack => exact (old hc).moveAcceptor at_ rfl rfl rfl nofun
  | io l a pc pc' at_ move =>
    refine (old hc).setIo at_ fun batch ↦ ?_
    cases move <;> exact nofun
  | abort l fd events batch at_ missing => exact (old hc).congr rfl rfl rfl
  | cancel l d id batch at_ =>
    by_cases hcd : c = d
    · exact Or.inr (Or.inr ⟨l, batch, by rw [setIo_io, Function.update_self, hcd]⟩)
    · refine ((old hc).cancel ?_).setIo at_ nofun
      intro k tn hk hid hj
      exact hcd (hj.symm.trans (h.ids.job_of_cancel at_ hk hid))
  | messageAdd l d p batch at_ =>
    rw [setIo_connCount, addStmt_connCount] at hc
    have at' : (s.addStmt d p).io l = .message d (.addNewTcpConn p) batch := by
      rw [addStmt_io, at_]
    cases p with
    | runAfter =>
      by_cases hcd : c = d
      · exact Or.inr (Or.inl (hcd ▸ armed_runAfter s d))
      · refine ((old hc).runAfter numbered hok.bound d).setIo at' fun batch he ↦ ?_
        cases he
        exact hcd rfl
    | setTimerId id =>
      exact (Pending.congr (t := s.addStmt d (.setTimerId id)) (old hc) rfl rfl rfl).setIo at' nofun
    | emplaceBack =>
      exact (Pending.congr (t := s.addStmt d .emplaceBack) (old hc) rfl rfl rfl).setIo at' nofun
  | send l e d len batch at_ known =>
    refine (Pending.congr (old hc) ?_ ?_ ?_).setIo at_ nofun <;> rfl
  | sendFails l d len => exact old hc
  | obuf a d n => exact (old hc).congr rfl rfl rfl
  | sendCtl l ok e l' op fd ev batch at_ =>
    refine (Pending.congr (old hc) ?_ ?_ ?_).setIo at_ nofun <;> rfl
  | writeDel l d op ev batch at_ drained call =>
    refine (Pending.congr (old hc) ?_ ?_ ?_).setIo at_ nofun <;> rfl
  | writeCtl l ok d l' op fd ev batch at_ =>
    refine (Pending.congr (old hc) ?_ ?_ ?_).setIo at_ nofun <;> rfl
  | hupMap l fd batch at_ =>
    refine (Pending.congr (old hc) ?_ ?_ ?_).setIo at_ nofun <;> rfl
  | hupCtl l ok fd batch at_ =>
    refine (Pending.congr (old hc) ?_ ?_ ?_).setIo at_ nofun <;> rfl
  | close l d p batch at_ body =>
    rw [setIo_connCount, closeStmt_connCount] at hc
    exact ((old hc).closeStmt d p).setIo ((congrFun (closeStmt_io s d p) l).trans at_) nofun
  | userCloseStmt l e d p batch at_ body =>
    rw [setIo_connCount, closeStmt_connCount] at hc
    exact ((old hc).closeStmt d p).setIo ((congrFun (closeStmt_io s d p) l).trans at_) nofun
  | timer k tn a stage node move =>
    refine (old hc).setStage node fun hj harmed ↦ move.armed_mono ?_ harmed
    -- a node of `c` whose callback began would be in `t`
    by_contra hst
    refine hb ⟨k, { tn with stage := stage }, ?_, hj, by simpa using hst⟩
    rw [setStage_tsTimer, TimerState.nodes_setStage, if_pos rfl, node, Option.map_some]
  | timerClose k tn p node at_ body =>
    rw [setStage_connCount, closeStmt_connCount] at hc
    have node' : (s.closeStmt tn.job p).tsTimer.nodes k = some tn := by
      rw [closeStmt_tsTimer]; exact node
    refine ((old hc).closeStmt tn.job p).setStage node' fun hj _ ↦ ?_
    exact absurd ⟨k, tn, node, hj, by rw [at_]; rfl⟩ hb₀

/-- Being inside a connection is being inside its callback or its `active_close`. -/
theorem inside_iff {pc : IoPc} : pc.inside c = true ↔ pc.own = some c ∨ pc.other = some c := by
  simp [IoPc.inside]

/-- An admitted step keeps the invariant. -/
theorem Owned.step (h : s.Owned) (hok : s.KeepsOwner a) (hstep : Step s a t) : t.Owned where
  threads := h.threads.step hstep
  known := h.known.step hstep
  ids := h.ids.step hstep hok.bound
  pending _ hc hb := h.pending_step hok hstep hc hb
  apart l c hin hbegun := by
    have hcall : (s.io l).inside c = true ∨ s.callsInto a = some c := by
      rw [inside_iff] at hin ⊢
      rcases hin with hown | hother
      · exact (hstep.own hown).imp Or.inl And.left
      · exact (hstep.other hother).imp Or.inr And.left
    rcases hcall with hold | hcall
    · rcases hstep.begun hbegun with hb | hbegins
      · exact h.apart l c hold hb
      · by_cases hl : l < s.tsThreadNum
        · rw [hok.begin c hbegins l hl] at hold
          cases hold
        · rw [h.threads l (by omega)] at hold
          cases hold
    · rcases hstep.begun hbegun with ⟨k, tn, hk, hj, hb⟩ | hbegins
      · rw [hok.calls c hcall k (h.ids.numbered k tn hk).1 tn hk hj] at hb
        cases hb
      · cases a <;> simp [callsInto, begins] at hcall hbegins

/-- A started server is inside no connection. -/
theorem owned_init (n : Nat) (elEvfd : Nat → Int) : (init n elEvfd).Owned where
  threads := noOtherThread_init n elEvfd
  known := known_init n elEvfd
  ids := timerIds_init n elEvfd
  apart _ _ h := nomatch h
  pending _ h := nomatch h

/-- A connection with a pending timer has an owner. -/
theorem Pending.owns (h : s.Pending c) : ∃ p, s.Owns c p := by
  rcases h with harms | ⟨k, tn, hk, hj, harmed⟩ | ⟨l, batch, hio⟩
  · refine ⟨.accepting, ?_⟩
    simp only [Owns, AcceptPc.arms] at harms ⊢
    split at harms <;> simp_all [AcceptPc.conn]
  · refine ⟨.timer k, tn, hk, hj, ?_⟩
    unfold armed at harmed
    split at harmed <;> simp_all [TimerStage.holds]
  · exact ⟨.message l, by rw [Owns, hio]; rfl⟩

/-- In every run whose steps all meet the condition, a connection has an owner while a thread is
inside its `do_read`, `do_write` or `do_close`. -/
theorem owner_while_busy {n : Nat} {elEvfd : Nat → Int}
    (h : ReachBy Server.step KeepsOwner (init n elEvfd) s) (busy : s.Busy c) :
    0 < s.ownerCount c := by
  have howned : s.Owned := h.invariant (owned_init n elEvfd) fun s a t hs hok hstep ↦
    hs.step hok (step_inversion hstep)
  rw [ownerCount, Set.encard_pos]
  rcases busy with ⟨l, hin⟩ | ⟨k, tn, p, hk, hj, hst⟩
  · have hlt : c < s.connCount := by
      rcases inside_iff.mp hin with hown | hother
      · exact (howned.known.own l c hown).1
      · exact howned.known.other l c hother
    have hb := howned.apart l c hin
    exact (howned.pending c hlt hb).owns
  · exact ⟨.timer k, tn, hk, hj, by rw [hst]; rfl⟩

/-- A connection handles a message, and its second timer expires. -/
def timeoutAfterMessage : List ServerAction :=
  .accept 7 :: List.replicate 5 (.acceptor true) ++
    [.wait 0 [(7, EPOLLIN)], .lookup 0, .readData 0] ++ List.replicate 5 (.message 0) ++
      [.endMessage 0, .endMessage 0, .expire 1, .check 1, .post 1, .begin 1] ++
        List.replicate 5 (.timerClose 1)

/-- A connection that a timeout is closing after its last message has an owner. -/
theorem timed_out_connection_owned :
    ∃ s, run Server.step (init 1 fun _ ↦ 3) timeoutAfterMessage = some s ∧ s.Busy 0 ∧
      0 < s.ownerCount 0 := by
  have hrun : (run Server.step (init 1 fun _ ↦ 3) timeoutAfterMessage).isSome := by
    decide +kernel
  have hnode : ∀ t ∈ run Server.step (init 1 fun _ ↦ 3) timeoutAfterMessage,
      t.tsTimer.nodes 1 = some ⟨1, 0, .running .takeFd⟩ := by decide +kernel
  obtain ⟨s, hs⟩ := Option.isSome_iff_exists.mp hrun
  have hbusy : s.Busy 0 := Or.inr ⟨1, _, _, hnode s hs, rfl, rfl⟩
  exact ⟨s, hs, hbusy, owner_while_busy (reachBy_of_run hs (by decide +kernel)) hbusy⟩

/-- The loop's thread has entered `do_read` when the timer closes the connection. -/
def timeoutInsideRead : List ServerAction :=
  .accept 7 :: List.replicate 5 (.acceptor true) ++
    [.wait 0 [(7, EPOLLIN)], .lookup 0, .expire 0, .check 0, .post 0, .begin 0] ++
      List.replicate 12 (.timerClose 0)

/-- After that timeout no place holds the connection. -/
theorem no_owner_after_timeout {s : Server}
    (hs : run Server.step (init 1 fun _ ↦ 3) timeoutInsideRead = some s) (p : OwnerPlace) :
    ¬ s.Owns 0 p := by
  have hmap : (run Server.step (init 1 fun _ ↦ 3) timeoutInsideRead).map
      (fun t ↦ (t.loops 0).epEventMap) = some (Function.update (Function.update
        (Function.update (fun _ ↦ none) 3 (some ⟨EPOLLIN, some .evfdRead, none⟩)) 7
          (some ⟨EPOLLIN, some (.doRead 0), none⟩)) 7 none) := by rfl
  have hrest : ∀ t ∈ run Server.step (init 1 fun _ ↦ 3) timeoutInsideRead,
      t.tsThreadNum = 1 ∧ t.tsTcpConnections = [] ∧ t.acceptor = .idle ∧
        t.io 0 = .reading 0 [] ∧ t.tsTimer.tmCount = 1 ∧
          t.tsTimer.nodes 0 = some ⟨0, 0, .done⟩ := by decide +kernel
  obtain ⟨hthreads, hlist, hacceptor, hio, hcount, hnode⟩ := hrest s hs
  rw [hs, Option.map_some, Option.some.injEq] at hmap
  have hreach : Reach Server.step (init 1 fun _ ↦ 3) s := reach_of_run hs
  have hinv : s.NoOtherThread ∧ s.Known ∧ s.tsTimer.Numbered :=
    hreach.invariant (P := fun s ↦ s.NoOtherThread ∧ s.Known ∧ s.tsTimer.Numbered)
      ⟨noOtherThread_init _ _, known_init _ _, TimerState.numbered_init⟩
      fun _ _ _ hi _ hstep ↦ ⟨hi.1.step (step_inversion hstep),
        hi.2.1.step (step_inversion hstep), (step_inversion hstep).numbered hi.2.2⟩
  obtain ⟨hpoll, hknown, hnumbered⟩ := hinv
  have thread (l : Nat) : s.io l = .reading 0 [] ∨ s.io l = .poll := by
    by_cases hl : l = 0
    · exact Or.inl (hl ▸ hio)
    · exact Or.inr (hpoll l (by omega))
  have stage (k : Nat) (tn) (hk : s.tsTimer.nodes k = some tn) : tn.stage = .done := by
    obtain rfl : k = 0 := by
      have := (hnumbered k tn hk).1
      omega
    obtain rfl := Option.some.inj (hk.symm.trans hnode)
    rfl
  cases p with
  | callback l fd =>
    rintro ⟨entry, hfd, hread⟩
    have hstored := hknown.stored l (.doRead 0) 0 ⟨fd, entry, hfd, Or.inl hread⟩ rfl
    have hown := hknown.own 0 0 (by rw [hio]; rfl)
    obtain rfl : l = 0 := hstored.2.symm.trans hown.2
    rw [hmap] at hfd
    simp only [Function.update_apply] at hfd
    split at hfd
    · cases hfd
    · split at hfd
      · obtain rfl := Option.some.inj hfd
        cases hread
      · cases hfd
  | listed i =>
    intro hi
    rw [Owns, hlist] at hi
    cases hi
  | timer k =>
    rintro ⟨tn, hk, -, hholds⟩
    rw [stage k tn hk] at hholds
    cases hholds
  | accepting =>
    intro hacc
    rw [Owns, hacceptor] at hacc
    cases hacc
  | message l =>
    intro hpassed
    rw [Owns] at hpassed
    rcases thread l with h | h <;> rw [h] at hpassed <;> cases hpassed
  | loopClean l =>
    intro hcleaned
    rw [Owns] at hcleaned
    rcases thread l with h | h <;> rw [h] at hcleaned <;> cases hcleaned
  | timerClean k =>
    rintro ⟨tn, p, hk, -, hst⟩
    rw [stage k tn hk] at hst
    cases hst

/-- A connection has no owner left while the loop's thread is inside its `do_read`. -/
theorem read_outlives_owners :
    ¬ ∀ (n : Nat) (elEvfd : Nat → Int) (s : Server),
      Reach Server.step (init n elEvfd) s → ∀ c, s.Busy c → 0 < s.ownerCount c := by
  intro h
  have hrun : (run Server.step (init 1 fun _ ↦ 3) timeoutInsideRead).isSome := by decide +kernel
  have hio : ∀ t ∈ run Server.step (init 1 fun _ ↦ 3) timeoutInsideRead,
      t.io 0 = .reading 0 [] := by decide +kernel
  obtain ⟨s, hs⟩ := Option.isSome_iff_exists.mp hrun
  have howned := h 1 (fun _ ↦ 3) s (reach_of_run hs) 0 (Or.inl ⟨0, by rw [hio s hs]; rfl⟩)
  rw [ownerCount, Set.encard_pos] at howned
  obtain ⟨p, hp⟩ := howned
  exact no_owner_after_timeout hs p hp

end Server

end ConcurrentServer.Net
