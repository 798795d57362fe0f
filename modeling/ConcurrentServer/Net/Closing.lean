import ConcurrentServer.Base.Threads
import ConcurrentServer.Net.ServerStep

/-!
# The threads inside `do_close`

`src/net/tcp_conn.cpp:99–113`, `src/net/tcp_server.cpp:69–78`. The threads of the loops and the
pool workers inside callbacks of timer nodes execute the body of `do_close`, several of them at a
time, also for one connection. What a step does to their places, to the descriptors and to the
list is stated once here.
-/

namespace ConcurrentServer.Net
open ConcurrentServer.Base

/-- A thread that may be inside `do_close`: that of a loop, or the pool worker that is inside the
callback of a timer node. -/
inductive Closer
  | loop (l : Nat)
  | node (k : Nat)
  deriving DecidableEq, Repr

/-- The next statement of the thread inside `do_close`. -/
def Closer.action : Closer → ServerAction
  | .loop l => .close l
  | .node k => .timerClose k

theorem Closer.action_inj {q q' : Closer} (h : q.action = q'.action) : q = q' := by
  cases q <;> cases q' <;> cases h <;> rfl

/-- The connection and the next statement of the `do_close` that the thread is inside. -/
def IoPc.closing? : IoPc → Option (Nat × ClosePc)
  | .closing c p _ | .userClosing _ c p _ => some (c, p)
  | _ => none

/-- The connection and the next statement of the `do_close` that the callback is inside. -/
def TimerNode.closing? (tn : TimerNode Nat ClosePc) : Option (Nat × ClosePc) :=
  match tn.stage with
  | .running p => some (tn.job, p)
  | _ => none

/-- `tc_fd`, and how often `do_close` has come past `do_clean`. -/
def Conn.fdState (tc : Conn) : Int × Nat := (tc.tcFd, tc.closed)

namespace Server

/-- The `do_close` that a thread is inside. -/
def closing (s : Server) : Closer → Option (Nat × ClosePc)
  | .loop l => (s.io l).closing?
  | .node k => (s.tsTimer.nodes k).bind TimerNode.closing?

variable {s t : Server} {a : ServerAction}

/-- The action of a thread inside `do_close` executes its next statement. -/
theorem closeStatement_action (s : Server) (q : Closer) :
    s.closeStatement q.action = s.closing q := by
  cases q with
  | loop l =>
    simp only [Closer.action, closeStatement, closing]
    cases s.io l <;> rfl
  | node k =>
    simp only [Closer.action, closeStatement, closing]
    cases s.tsTimer.nodes k with
    | none => rfl
    | some tn =>
      obtain ⟨id, job, stage⟩ := tn
      cases stage <;> rfl

/-- The thread that executes a statement of `do_close` is inside that `do_close`. -/
theorem closing_of_closeStatement {c : Nat} {p : ClosePc}
    (h : s.closeStatement a = some (c, p)) :
    ∃ q : Closer, a = q.action ∧ s.closing q = some (c, p) := by
  cases a with
  | close l => exact ⟨.loop l, rfl, (s.closeStatement_action (.loop l)).symm.trans h⟩
  | timerClose k => exact ⟨.node k, rfl, (s.closeStatement_action (.node k)).symm.trans h⟩
  | _ => cases h

/-! ### The next statement -/

/-- `do_clean` goes on, or the body comes to its end. -/
theorem closeNext_doClean (s : Server) (c : Nat) (p : CleanPc) :
    s.closeNext c (.doClean p) = .ret ∨ ∃ p', s.closeNext c (.doClean p) = .doClean p' := by
  change (s.cleanNext c p).elim ClosePc.ret .doClean = .ret ∨
    ∃ p', (s.cleanNext c p).elim ClosePc.ret .doClean = .doClean p'
  cases s.cleanNext c p with
  | none => exact Or.inl rfl
  | some p' => exact Or.inr ⟨p', rfl⟩

/-- The body of `do_close` does not begin again. -/
theorem closeNext_ne_enter (s : Server) (c : Nat) (p : ClosePc) : s.closeNext c p ≠ .enter := by
  cases p with
  | doClean p =>
    rcases s.closeNext_doClean c p with h | ⟨p', h⟩ <;> rw [h] <;> exact nofun
  | _ => exact nofun

/-! ### What a step does -/

/-- A step leaves the descriptors, accepts a connection, or is a statement of `do_close`. -/
inductive CloseEffect (s : Server) (a : ServerAction) (t : Server) : Prop
  /-- Threads may begin a `do_close` or come back from one. -/
  | silent (fdOpen : t.fdOpen = s.fdOpen) (count : t.connCount = s.connCount)
    (conns : ∀ c, (t.conns c).fdState = (s.conns c).fdState)
    (list : ∀ q : Closer, a = q.action → t.tsTcpConnections = s.tsTcpConnections)
    (stay : ∀ q c p, s.closing q = some (c, p) → p ≠ .ret → t.closing q = some (c, p))
    (new : ∀ q c p, t.closing q = some (c, p) → s.closing q = some (c, p) ∨ p = .enter)
  | accept (fd : Int) (valid : 0 ≤ fd) (fresh : s.fdOpen fd = false) (eq : t = s.acceptConn fd)
  | close (q : Closer) (c : Nat) (p : ClosePc) (by_ : a = q.action)
    (at_ : s.closing q = some (c, p)) (body : p ≠ .ret)
    (next : t.closing q = some (c, s.closeNext c p))
    (others : ∀ q' ≠ q, t.closing q' = s.closing q')
    (fdOpen : t.fdOpen = (s.closeStmt c p).fdOpen) (count : t.connCount = s.connCount)
    (conns : t.conns = (s.closeStmt c p).conns)
    (list : t.tsTcpConnections = (s.closeStmt c p).tsTcpConnections)

/-- A change of a connection that leaves its descriptor. -/
theorem fdState_modConn {d : Nat} {f : Conn → Conn}
    (keep : (f (s.conns d)).fdState = (s.conns d).fdState) (c : Nat) :
    ((s.modConn d f).conns c).fdState = (s.conns c).fdState := by
  rw [modConn_conns]
  exact apply_update_of_same Conn.fdState keep c

/-- A statement of `add_new_tcp_conn` leaves the descriptors. -/
theorem fdState_addStmt (d : Nat) (p : AddPc) (c : Nat) :
    ((s.addStmt d p).conns c).fdState = (s.conns c).fdState := by
  cases p with
  | setTimerId id => exact fdState_modConn (f := fun tc ↦ { tc with tcTimerId := id }) rfl c
  | _ => rfl

/-- Nothing happens to the threads' places in `do_close`. -/
theorem CloseEffect.same (fdOpen : t.fdOpen = s.fdOpen) (count : t.connCount = s.connCount)
    (conns : ∀ c, (t.conns c).fdState = (s.conns c).fdState)
    (list : ∀ q : Closer, a = q.action → t.tsTcpConnections = s.tsTcpConnections)
    (closing : t.closing = s.closing) : CloseEffect s a t :=
  .silent fdOpen count conns list (fun _ _ _ h _ ↦ by rw [closing]; exact h)
    fun _ _ _ h ↦ Or.inl (by rw [← closing]; exact h)

/-- The thread of a loop moves on, outside the body of `do_close`. -/
theorem CloseEffect.setIo {u : Server} {l : Nat} {pc pc' : IoPc} (at_ : s.io l = pc)
    (fdOpen : u.fdOpen = s.fdOpen) (count : u.connCount = s.connCount)
    (conns : ∀ c, (u.conns c).fdState = (s.conns c).fdState)
    (list : ∀ q : Closer, a = q.action → u.tsTcpConnections = s.tsTcpConnections)
    (io : u.io = s.io) (nodes : ∀ k, u.closing (.node k) = s.closing (.node k))
    (leave : ∀ c p, pc.closing? = some (c, p) → p = .ret)
    (enter : ∀ c p, pc'.closing? = some (c, p) → p = .enter) :
    CloseEffect s a (u.setIo l pc') := by
  refine .silent fdOpen count conns list ?_ ?_
  · intro q c p h body
    cases q with
    | node k => exact (nodes k).trans h
    | loop l' =>
      change ((u.setIo l pc').io l').closing? = _
      rw [setIo_io, io]
      by_cases hl : l' = l
      · have hold : pc.closing? = some (c, p) := by
          rw [← at_, ← hl]
          exact h
        exact absurd (leave c p hold) body
      · rw [Function.update_of_ne hl]
        exact h
  · intro q c p h
    cases q with
    | node k => exact Or.inl ((nodes k).symm.trans h)
    | loop l' =>
      change ((u.setIo l pc').io l').closing? = _ at h
      rw [setIo_io, io] at h
      by_cases hl : l' = l
      · rw [hl, Function.update_self] at h
        exact Or.inr (enter c p h)
      · rw [Function.update_of_ne hl] at h
        exact Or.inl h

/-- `accept` returns a valid descriptor. -/
theorem nonneg_of_accept {fd : Int} (h : s.step (.accept fd) = some t) : 0 ≤ fd := by
  simp only [step, stepLive, Option.ite_none_left_eq_some, Option.ite_none_right_eq_some] at h
  exact h.2.1.2.1

/-- A new timer node is inside no callback. -/
theorem closing_addStmt (numbered : s.tsTimer.Numbered) (c : Nat) (p : AddPc) (q : Closer) :
    (s.addStmt c p).closing q = s.closing q := by
  cases q with
  | loop l =>
    change ((s.addStmt c p).io l).closing? = _
    rw [addStmt_io]
    rfl
  | node k =>
    cases p with
    | runAfter =>
      change ((s.tsTimer.runAfter c).nodes k).bind TimerNode.closing? = _
      rw [TimerState.nodes_runAfter]
      split
      · next hk =>
        have hnone : s.tsTimer.nodes k = none := by
          cases hnode : s.tsTimer.nodes k with
          | none => rfl
          | some tn => exact absurd (numbered k tn hnode).1 (by omega)
        change _ = (s.tsTimer.nodes k).bind TimerNode.closing?
        rw [hnone]
        rfl
      · rfl
    | _ => rfl

/-- What a node is inside of after a node has moved on. -/
theorem closing_setStage {u : Server} {k : Nat} {tn : TimerNode Nat ClosePc}
    (timer : u.tsTimer = s.tsTimer) (node : s.tsTimer.nodes k = some tn)
    (stage : TimerStage ClosePc) (k' : Nat) :
    (u.setStage k stage).closing (.node k') =
      if k' = k then TimerNode.closing? { tn with stage := stage } else s.closing (.node k') := by
  change ((u.tsTimer.setStage k stage).nodes k').bind TimerNode.closing? = _
  rw [timer, TimerState.nodes_setStage, node]
  split
  · rfl
  · rfl

/-- A move of a loop's thread begins a `do_close` or comes back from one at most. -/
theorem IoMove.closing {l : Nat} {pc pc' : IoPc} (h : IoMove s l a pc pc') :
    (∀ c p, pc.closing? = some (c, p) → p = .ret) ∧
      ∀ c p, pc'.closing? = some (c, p) → p = .enter := by
  cases h with
  | readFails | writeFails | userClose => exact ⟨nofun, fun _ _ h ↦ by cases h; rfl⟩
  | closed | userClosed => exact ⟨fun _ _ h ↦ by cases h; rfl, nofun⟩
  | _ => exact ⟨nofun, nofun⟩

/-- A move of a timer node begins its callback or comes back from it at most. -/
theorem TimerMove.effect {k : Nat} {tn : TimerNode Nat ClosePc} {stage : TimerStage ClosePc}
    (node : s.tsTimer.nodes k = some tn) (h : TimerMove s k tn a stage) :
    CloseEffect s a (s.setStage k stage) := by
  have hleave : ∀ c p, tn.closing? = some (c, p) → p = .ret := by
    intro c p hc
    unfold TimerNode.closing? at hc
    cases h with
    | done at_ => rw [at_] at hc; cases hc; rfl
    | _ => rename tn.stage = _ => at_; rw [at_] at hc; cases hc
  have henter : ∀ c p, TimerNode.closing? { tn with stage := stage } = some (c, p) →
      p = .enter := by
    intro c p hc
    cases h with
    | begin at_ => cases hc; rfl
    | _ => cases hc
  refine .silent rfl rfl (fun _ ↦ rfl) (fun _ _ ↦ rfl) ?_ ?_
  · intro q c p hq body
    cases q with
    | loop l => exact hq
    | node k' =>
      rw [closing_setStage rfl node]
      split
      · next hk =>
        have hold : tn.closing? = some (c, p) := by
          rw [hk] at hq
          change (s.tsTimer.nodes k).bind TimerNode.closing? = _ at hq
          rw [node] at hq
          exact hq
        exact absurd (hleave c p hold) body
      · exact hq
  · intro q c p hq
    cases q with
    | loop l => exact Or.inl hq
    | node k' =>
      rw [closing_setStage rfl node] at hq
      split at hq
      · exact Or.inr (henter c p hq)
      · exact Or.inl hq

/-- A loop's thread executes a statement of `do_close`. -/
theorem CloseEffect.loop {l c : Nat} {p : ClosePc} {pc pc' : IoPc} (at_ : s.io l = pc)
    (here : pc.closing? = some (c, p)) (body : p ≠ .ret)
    (next : pc'.closing? = some (c, s.closeNext c p)) :
    CloseEffect s (.close l) ((s.closeStmt c p).setIo l pc') := by
  have hio := closeStmt_io s c p
  refine .close (.loop l) c p rfl ?_ body ?_ ?_ rfl (closeStmt_connCount s c p) rfl rfl
  · change (s.io l).closing? = _
    rw [at_]
    exact here
  · change (((s.closeStmt c p).setIo l pc').io l).closing? = _
    rw [setIo_io, Function.update_self]
    exact next
  · intro q hq
    cases q with
    | loop l' =>
      have hl : l' ≠ l := fun he ↦ hq (by rw [he])
      change (((s.closeStmt c p).setIo l pc').io l').closing? = (s.io l').closing?
      rw [setIo_io, Function.update_of_ne hl, hio]
    | node k =>
      change ((s.closeStmt c p).tsTimer.nodes k).bind _ = (s.tsTimer.nodes k).bind _
      rw [closeStmt_tsTimer]

/-- Every step. -/
theorem effect_of_step (numbered : s.tsTimer.Numbered) (hstep : s.step a = some t) :
    CloseEffect s a t := by
  cases step_inversion hstep with
  | accept fd idle fresh started => exact .accept fd (nonneg_of_accept hstep) fresh rfl
  | acceptAdd ok c p at_ =>
    refine .same ?_ (addStmt_connCount s c p) (fdState_addStmt c p) (fun q hq ↦ ?_) ?_
    · cases p <;> rfl
    · cases q <;> cases hq
    · funext q
      exact closing_addStmt numbered c p q
  | io l a pc pc' at_ move =>
    exact .setIo at_ rfl rfl (fun _ ↦ rfl) (fun _ _ ↦ rfl) rfl (fun _ ↦ rfl) move.closing.1
      move.closing.2
  | cancel l c id batch at_ =>
    exact .setIo at_ rfl rfl (fun _ ↦ rfl) (fun _ _ ↦ rfl) rfl (fun _ ↦ rfl) nofun nofun
  | messageAdd l c p batch at_ =>
    refine .setIo at_ ?_ (addStmt_connCount s c p) (fdState_addStmt c p) (fun q hq ↦ ?_)
      (addStmt_io s c p) (fun k ↦ closing_addStmt numbered c p (.node k)) nofun nofun
    · cases p <;> rfl
    · cases q <;> cases hq
  | send l c d len batch at_ known =>
    refine .setIo at_ rfl rfl ?_ (fun _ _ ↦ rfl) rfl (fun _ ↦ rfl) nofun nofun
    exact fdState_modConn (f := fun tc ↦ { tc with tcObufLength := tc.tcObufLength + len }) rfl
  | obuf a d n =>
    refine .same rfl rfl ?_ (fun _ _ ↦ rfl) rfl
    exact fdState_modConn (f := fun tc ↦ { tc with tcObufLength := n }) rfl
  | sendCtl l ok c l' op fd ev batch at_ =>
    exact .setIo at_ rfl rfl (fun _ ↦ rfl) (fun _ _ ↦ rfl) rfl (fun _ ↦ rfl) nofun nofun
  | writeDel l c op ev batch at_ drained call =>
    exact .setIo at_ rfl rfl (fun _ ↦ rfl) (fun _ _ ↦ rfl) rfl (fun _ ↦ rfl) nofun nofun
  | writeCtl l ok c l' op fd ev batch at_ =>
    exact .setIo at_ rfl rfl (fun _ ↦ rfl) (fun _ _ ↦ rfl) rfl (fun _ ↦ rfl) nofun nofun
  | hupMap l fd batch at_ =>
    exact .setIo at_ rfl rfl (fun _ ↦ rfl) (fun _ _ ↦ rfl) rfl (fun _ ↦ rfl) nofun nofun
  | hupCtl l ok fd batch at_ =>
    exact .setIo at_ rfl rfl (fun _ ↦ rfl) (fun _ _ ↦ rfl) rfl (fun _ ↦ rfl) nofun nofun
  | close l c p batch at_ body => exact .loop at_ rfl body rfl
  | userCloseStmt l c d p batch at_ body => exact .loop at_ rfl body rfl
  | timer k tn a stage node move => exact move.effect node
  | timerClose k tn p node at_ body =>
    have hnode := closing_setStage (closeStmt_tsTimer s tn.job p) node
      (.running (s.closeNext tn.job p))
    have hclosing : tn.closing? = some (tn.job, p) := by
      unfold TimerNode.closing?
      rw [at_]
    refine .close (.node k) tn.job p rfl ?_ body ?_ ?_ rfl (closeStmt_connCount s tn.job p) rfl rfl
    · change (s.tsTimer.nodes k).bind _ = _
      rw [node]
      exact hclosing
    · rw [hnode, if_pos rfl]
      rfl
    · intro q hq
      cases q with
      | loop l =>
        change ((s.closeStmt tn.job p).io l).closing? = _
        rw [closeStmt_io]
        rfl
      | node k' => rw [hnode, if_neg fun he ↦ hq (by rw [he])]
  | _ => exact .same rfl rfl (fun _ ↦ rfl) (fun _ _ ↦ rfl) rfl

end Server

end ConcurrentServer.Net
