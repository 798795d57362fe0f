import ConcurrentServer.Net.ServerStep

/-!
# What a step reads of the other threads

`src/net/tcp_server.h:43–55`, `src/net/acceptor.cpp:91–103`, `src/net/epoll.cpp:86–129`. A statement
of the acceptor's thread or of a loop's thread that is not a call on the timer reads neither the
timer nor the place of another thread, and changes neither.
-/

namespace ConcurrentServer.Net
open ConcurrentServer.Base

/-- A thread of the server itself. -/
inductive ServerThread
  | acceptor
  | loop (l : Nat)
  deriving DecidableEq, Repr

/-- The thread that makes the step; the timer's threads make the last five. -/
def ServerAction.by? : ServerAction → Option ServerThread
  | .accept _ | .acceptor _ => some .acceptor
  | .wait l _ | .lookup l | .readFails l | .readData l | .message l | .send l _ _ _
  | .userClose l _ | .endMessage l | .writeFails l | .writeSome l _ | .writeEnd l | .ctl l _
  | .close l | .hup l => some (.loop l)
  | .expire _ | .check _ | .post _ | .begin _ | .timerClose _ => none

/-- The action is neither a statement of `add_new_tcp_conn` or `update_conn_timeout_time`, which
may be a call on the timer, nor one of the timer's threads. -/
def ServerAction.plain : ServerAction → Bool
  | .acceptor _ | .message _ => false
  | a => a.by?.isSome

/-- The action, if it is such a one. -/
def ServerAction.plain? (a : ServerAction) : Option ServerAction := if a.plain then some a else none

/-- A call on the timer, with its argument: the connection that the callback captures, or the
id. -/
inductive TimerRequest
  | runAfter (c : Nat)
  | cancel (id : Int)
  deriving DecidableEq, Repr

/-- The call on the timer that the acceptor's thread makes next. -/
def AcceptPc.request : AcceptPc → Option TimerRequest
  | .addNewTcpConn c .runAfter => some (.runAfter c)
  | _ => none

/-- The call on the timer that a loop's thread makes next. -/
def IoPc.request : IoPc → Option TimerRequest
  | .message c (.addNewTcpConn .runAfter) _ => some (.runAfter c)
  | .message _ (.cancel id) _ => some (.cancel id)
  | _ => none

/-- The acceptor's thread only calls `run_after`. -/
theorem AcceptPc.eq_of_request {pc : AcceptPc} {r : TimerRequest} (h : pc.request = some r) :
    ∃ c, pc = .addNewTcpConn c .runAfter ∧ r = .runAfter c := by
  cases pc with
  | addNewTcpConn c p =>
    cases p with
    | runAfter =>
      cases h
      exact ⟨c, rfl, rfl⟩
    | _ => cases h
  | _ => cases h

/-- A loop's thread is before a call of `run_after`. -/
theorem IoPc.eq_of_request_runAfter {pc : IoPc} {c : Nat} (h : pc.request = some (.runAfter c)) :
    ∃ batch, pc = .message c (.addNewTcpConn .runAfter) batch := by
  cases pc with
  | message c' p batch =>
    cases p with
    | addNewTcpConn p =>
      cases p with
      | runAfter =>
        cases h
        exact ⟨batch, rfl⟩
      | _ => cases h
    | _ => cases h
  | _ => cases h

/-- A loop's thread is before a call of `cancel`. -/
theorem IoPc.eq_of_request_cancel {pc : IoPc} {id : Int} (h : pc.request = some (.cancel id)) :
    ∃ c batch, pc = .message c (.cancel id) batch := by
  cases pc with
  | message c p batch =>
    cases p with
    | addNewTcpConn p => cases p <;> cases h
    | cancel id' =>
      cases h
      exact ⟨c, batch, rfl⟩
    | _ => cases h
  | _ => cases h

/-- The thread goes on after `run_after`, which has returned `id`. -/
def AcceptPc.resume (id : Int) : AcceptPc → AcceptPc
  | .addNewTcpConn c .runAfter => .addNewTcpConn c (.setTimerId id)
  | pc => pc

/-- The thread goes on after `run_after`, which has returned `id`, or after `cancel`. -/
def IoPc.resume (id : Int) : IoPc → IoPc
  | .message c (.addNewTcpConn .runAfter) batch =>
    .message c (.addNewTcpConn (.setTimerId id)) batch
  | .message c (.cancel _) batch => .message c (.addNewTcpConn .runAfter) batch
  | pc => pc

/-- A loop's thread stores the id that it had, or the one that it gets. -/
theorem IoPc.setTimerId_of_resume {pc : IoPc} {id id' : Int} {c : Nat} {batch : List (Int × Mask)}
    (h : pc.resume id = .message c (.addNewTcpConn (.setTimerId id')) batch) :
    pc = .message c (.addNewTcpConn (.setTimerId id')) batch ∨
      pc.request = some (.runAfter c) ∧ id' = id := by
  cases pc with
  | message c' p batch' =>
    cases p with
    | addNewTcpConn p =>
      cases p with
      | runAfter =>
        cases h
        exact Or.inr ⟨rfl, rfl⟩
      | _ => exact Or.inl h
    | cancel id'' => cases h
    | _ => exact Or.inl h
  | _ => exact Or.inl h

/-- A loop's thread cancels the id that it had. -/
theorem IoPc.cancel_of_resume {pc : IoPc} {id id' : Int} {c : Nat} {batch : List (Int × Mask)}
    (h : pc.resume id = .message c (.cancel id') batch) : pc = .message c (.cancel id') batch := by
  cases pc with
  | message c' p batch' =>
    cases p with
    | addNewTcpConn p => cases p <;> cases h
    | cancel id'' => cases h
    | _ => exact h
  | _ => exact h

/-- The acceptor's thread stores the id that it had, or the one that it gets. -/
theorem AcceptPc.setTimerId_of_resume {pc : AcceptPc} {id id' : Int} {c : Nat}
    (h : pc.resume id = .addNewTcpConn c (.setTimerId id')) :
    pc = .addNewTcpConn c (.setTimerId id') ∨ pc.request = some (.runAfter c) ∧ id' = id := by
  cases pc with
  | addNewTcpConn c' p =>
    cases p with
    | runAfter =>
      cases h
      exact Or.inr ⟨rfl, rfl⟩
    | _ => exact Or.inl h
  | _ => exact Or.inl h

namespace Server

/-- The call on the timer that a thread makes next. -/
def request (s : Server) : ServerThread → Option TimerRequest
  | .acceptor => s.acceptor.request
  | .loop l => (s.io l).request

/-- The threads are at these places, and the timer is this one. -/
@[simps] def withThreads (s : Server) (io : Nat → IoPc) (acceptor : AcceptPc)
    (tsTimer : TimerState Nat ClosePc) : Server :=
  { s with io := io, acceptor := acceptor, tsTimer := tsTimer }

/-- A thread goes on after its call on the timer. -/
def resume (s : Server) (id : Int) : ServerThread → Server
  | .acceptor => s.setAcceptor (s.acceptor.resume id)
  | .loop l => s.setIo l ((s.io l).resume id)

/-- The threads that have a result have gone on, and the timer is this one. -/
def resumed (s : Server) (results : ServerThread → Option Int)
    (tsTimer : TimerState Nat ClosePc) : Server :=
  s.withThreads (fun l ↦ (results (.loop l)).elim (s.io l) (s.io l).resume)
    ((results .acceptor).elim s.acceptor s.acceptor.resume) tsTimer

/-- The threads but that of loop `l` are at these places, and the timer is this one. -/
def withOthers (l : Nat) (io : Nat → IoPc) (acceptor : AcceptPc)
    (tsTimer : TimerState Nat ClosePc) (s : Server) : Server :=
  s.withThreads (Function.update io l (s.io l)) acceptor tsTimer

variable {s t : Server} {a : ServerAction} {l : Nat} {io : Nat → IoPc} {acceptor : AcceptPc}
  {tsTimer : TimerState Nat ClosePc}

/-! ### Single statements -/

@[simp] theorem withThreads_setIo (pc : IoPc) :
    (s.withThreads io acceptor tsTimer).setIo l pc =
      (s.setIo l pc).withThreads (Function.update io l pc) acceptor tsTimer := rfl

@[simp] theorem withThreads_modConn (c : Nat) (f : Conn → Conn) :
    (s.withThreads io acceptor tsTimer).modConn c f =
      (s.modConn c f).withThreads io acceptor tsTimer := rfl

@[simp] theorem withThreads_modLoop (f : Epoll Callback → Epoll Callback) :
    (s.withThreads io acceptor tsTimer).modLoop l f =
      (s.modLoop l f).withThreads io acceptor tsTimer := rfl

@[simp] theorem withThreads_closeStmt (c : Nat) (p : ClosePc) :
    (s.withThreads io acceptor tsTimer).closeStmt c p =
      (s.closeStmt c p).withThreads io acceptor tsTimer := by
  cases p <;> rfl

@[simp] theorem withThreads_closeNext (c : Nat) (p : ClosePc) :
    (s.withThreads io acceptor tsTimer).closeNext c p = s.closeNext c p := by
  cases p <;> rfl

@[simp] theorem withThreads_addToPoller (c : Nat) (event : Mask) (cb : Callback) :
    (s.withThreads io acceptor tsTimer).addToPoller c event cb =
      (s.addToPoller c event cb).withThreads io acceptor tsTimer := rfl

@[simp] theorem withThreads_addToPollerOp (c : Nat) (event : Mask) :
    (s.withThreads io acceptor tsTimer).addToPollerOp c event = s.addToPollerOp c event := rfl

@[simp] theorem withThreads_addToPollerCtl (op : CtlOp) (fd : Int) (ev : Mask) (ok : Bool) :
    (s.withThreads io acceptor tsTimer).addToPollerCtl l op fd ev ok =
      (s.addToPollerCtl l op fd ev ok).withThreads io acceptor tsTimer := rfl

@[simp] theorem withThreads_ready (batch : List (Int × Mask)) :
    (s.withThreads io acceptor tsTimer).Ready l batch ↔ s.Ready l batch := Iff.rfl

@[simp] theorem withOthers_setIo (pc : IoPc) :
    (s.setIo l pc).withOthers l io acceptor tsTimer =
      (s.setIo l pc).withThreads (Function.update io l pc) acceptor tsTimer := by
  rw [withOthers, setIo_io, Function.update_self]

/-- The thread of loop `l` has not moved. -/
theorem withOthers_of_same (same : io l = s.io l) (h : t.io = s.io) :
    t.withOthers l io acceptor tsTimer = t.withThreads io acceptor tsTimer := by
  rw [withOthers, h, ← same, Function.update_eq_self]

/-! ### The thread of a loop -/

theorem lookupStep_withThreads (same : io l = s.io l) (batch : List (Int × Mask)) :
    (s.withThreads io acceptor tsTimer).lookupStep l batch =
      (s.lookupStep l batch).withOthers l io acceptor tsTimer := by
  cases batch with
  | nil => simp [lookupStep]
  | cons e batch =>
    simp only [lookupStep, withThreads_loops]
    cases (s.loops l).epEventMap e.1 with
    | none => exact (withOthers_of_same same (t := { s with aborted := true }) rfl).symm
    | some entry =>
      dsimp only
      cases entry.dispatch e.2 with
      | call cb => cases cb <;> simp
      | _ => simp

theorem messageStep_withThreads {c : Nat} {batch : List (Int × Mask)} {p : MsgPc}
    (own : (IoPc.message c p batch).request = none) :
    (s.withThreads io acceptor tsTimer).messageStep l c batch p =
      (s.messageStep l c batch p).map (withOthers l io acceptor tsTimer) := by
  cases p with
  | getTimerId => simp [messageStep]
  | cancel id => cases own
  | addNewTcpConn p =>
    cases p with
    | runAfter => cases own
    | setTimerId id => simp [messageStep, addStmt, addNext]
    | emplaceBack =>
      simp only [messageStep, addStmt, addNext, Option.map_some, withOthers_setIo]
      rfl
  | _ => rfl

theorem sendStep_withThreads (same : io l = s.io l) (c d len : Nat) (ok : Bool)
    (batch : List (Int × Mask)) :
    (s.withThreads io acceptor tsTimer).sendStep l c d len ok batch =
      (s.sendStep l c d len ok batch).withOthers l io acceptor tsTimer := by
  simp only [sendStep, withThreads_conns, withThreads_modConn, withThreads_addToPoller,
    withThreads_addToPollerOp, withThreads_setIo]
  split
  · exact (withOthers_of_same same rfl).symm
  · split
    · exact (withOthers_setIo _).symm
    · exact (withOthers_of_same same (s := s) (t := s.modConn d _) rfl).symm

theorem writeEndStep_withThreads (c : Nat) (batch : List (Int × Mask)) :
    (s.withThreads io acceptor tsTimer).writeEndStep l c batch =
      (s.writeEndStep l c batch).withOthers l io acceptor tsTimer := by
  simp only [writeEndStep, withThreads_conns, withThreads_loops, withThreads_modLoop]
  split
  · split <;> exact (withOthers_setIo _).symm
  · exact (withOthers_setIo _).symm

theorem ctlStep_withThreads (same : io l = s.io l) (ok : Bool) :
    (s.withThreads io acceptor tsTimer).ctlStep l ok =
      (s.ctlStep l ok).map (withOthers l io acceptor tsTimer) := by
  simp only [ctlStep, withThreads_io, same]
  cases s.io l with
  | message c p batch => cases p <;> simp
  | _ => simp

theorem closeStep_withThreads (same : io l = s.io l) :
    (s.withThreads io acceptor tsTimer).closeStep l =
      (s.closeStep l).map (withOthers l io acceptor tsTimer) := by
  simp only [closeStep, withThreads_io, same]
  cases s.io l with
  | closing c p batch =>
    dsimp only
    split <;> simp
  | userClosing c d p batch =>
    dsimp only
    split <;> simp
  | _ => rfl

theorem stepLive_withThreads (by_ : a.by? = some (.loop l)) (own : (s.io l).request = none)
    (same : io l = s.io l) :
    (s.withThreads io acceptor tsTimer).stepLive a =
      (s.stepLive a).map (withOthers l io acceptor tsTimer) := by
  cases a <;> cases by_ <;>
    simp only [stepLive, withThreads_io, same, withThreads_ready, withThreads_tsThreadNum,
      withThreads_conns, withThreads_connCount]
  case wait batch => split <;> simp
  case lookup =>
    cases s.io l with
    | lookup batch => exact congrArg some (lookupStep_withThreads same batch)
    | _ => rfl
  case message =>
    cases hpc : s.io l with
    | message c p batch => exact messageStep_withThreads (hpc ▸ own)
    | _ => rfl
  case send d len ok =>
    cases s.io l with
    | message c p batch =>
      cases p with
      | user =>
        dsimp only
        split
        · exact congrArg some (sendStep_withThreads same c d len ok batch)
        · rfl
      | _ => rfl
    | _ => rfl
  case userClose d =>
    cases s.io l with
    | message c p batch =>
      cases p with
      | user =>
        dsimp only
        split <;> simp
      | _ => rfl
    | _ => rfl
  case endMessage =>
    cases s.io l with
    | message c p batch => cases p <;> simp
    | _ => rfl
  case writeFails =>
    cases s.io l with
    | writing c batch =>
      dsimp only
      split <;> simp
    | _ => rfl
  case writeSome n =>
    cases s.io l with
    | writing c batch =>
      dsimp only
      split
      · rw [withThreads_modConn, Option.map_some]
        exact congrArg some (withOthers_of_same (t := s.modConn c _) same rfl).symm
      · rfl
    | _ => rfl
  case writeEnd =>
    cases s.io l with
    | writing c batch => exact congrArg some (writeEndStep_withThreads c batch)
    | _ => rfl
  case ctl ok => exact ctlStep_withThreads same ok
  case close => exact closeStep_withThreads same
  all_goals
    cases s.io l with
    | reading c batch => simp
    | hup fd batch => simp
    | _ => rfl

/-- A statement of a loop's thread is the same wherever the other threads are, and whatever the
timer is. -/
theorem step_withThreads (by_ : a.by? = some (.loop l)) (own : (s.io l).request = none)
    (same : io l = s.io l) :
    (s.withThreads io acceptor tsTimer).step a =
      (s.step a).map (withOthers l io acceptor tsTimer) := by
  unfold step
  rw [withThreads_aborted]
  split
  · rfl
  · exact stepLive_withThreads by_ own same

/-! ### The acceptor's thread -/

theorem stepLive_withThreads_acceptor (by_ : a.by? = some .acceptor)
    (own : s.acceptor.request = none) :
    (s.withThreads io s.acceptor tsTimer).stepLive a =
      (s.stepLive a).map fun t ↦ t.withThreads io t.acceptor tsTimer := by
  cases a <;> cases by_ <;>
    simp only [stepLive, acceptorStep, withThreads_acceptor, withThreads_fdOpen,
      withThreads_tsThreadNum]
  case accept fd =>
    split
    · rfl
    · rfl
  case acceptor ok =>
    cases hpc : s.acceptor with
    | addNewTcpConn c p =>
      cases p with
      | runAfter =>
        rw [hpc] at own
        cases own
      | _ => rfl
    | _ => rfl

/-- A statement of the acceptor's thread is the same wherever the other threads are, and whatever
the timer is. -/
theorem step_withThreads_acceptor (by_ : a.by? = some .acceptor)
    (own : s.acceptor.request = none) :
    (s.withThreads io s.acceptor tsTimer).step a =
      (s.step a).map fun t ↦ t.withThreads io t.acceptor tsTimer := by
  unfold step
  rw [withThreads_aborted]
  split
  · rfl
  · exact stepLive_withThreads_acceptor by_ own

/-! ### Frames -/

/-- A statement of a loop's thread moves no other thread, nor the timer. -/
theorem keeps_of_step (by_ : a.by? = some (.loop l)) (own : (s.io l).request = none)
    (h : s.step a = some t) :
    (∀ l' ≠ l, t.io l' = s.io l') ∧ t.acceptor = s.acceptor ∧ t.tsTimer = s.tsTimer := by
  have hstep : s.step a = (s.step a).map (withOthers l s.io s.acceptor s.tsTimer) :=
    step_withThreads by_ own rfl
  rw [h] at hstep
  have ht := Option.some.inj hstep
  refine ⟨fun l' hl ↦ ?_, by rw [ht]; rfl, by rw [ht]; rfl⟩
  exact (congrFun (congrArg Server.io ht) l').trans (Function.update_of_ne hl _ _)

/-- A statement of the acceptor's thread moves no loop's thread, nor the timer. -/
theorem keeps_of_step_acceptor (by_ : a.by? = some .acceptor) (own : s.acceptor.request = none)
    (h : s.step a = some t) : t.io = s.io ∧ t.tsTimer = s.tsTimer := by
  have hstep : s.step a = (s.step a).map fun t ↦ t.withThreads s.io t.acceptor s.tsTimer :=
    step_withThreads_acceptor by_ own
  rw [h] at hstep
  have ht := Option.some.inj hstep
  exact ⟨by rw [ht]; rfl, by rw [ht]; rfl⟩

section Frames

variable {th th' : ServerThread}

/-- A statement that is no call on the timer leaves the timer. -/
theorem tsTimer_of_step (by_ : a.by? = some th) (own : s.request th = none)
    (h : s.step a = some t) : t.tsTimer = s.tsTimer := by
  cases th with
  | acceptor => exact (keeps_of_step_acceptor by_ own h).2
  | loop l => exact (keeps_of_step by_ own h).2.2

/-- A statement leaves the other threads where they are. -/
theorem request_of_step (by_ : a.by? = some th) (own : s.request th = none)
    (h : s.step a = some t) (other : th' ≠ th) : t.request th' = s.request th' := by
  cases th with
  | acceptor =>
    cases th' with
    | acceptor => exact absurd rfl other
    | loop l => rw [request, (keeps_of_step_acceptor by_ own h).1, request]
  | loop l =>
    obtain ⟨hio, hacceptor, -⟩ := keeps_of_step by_ own h
    cases th' with
    | acceptor => rw [request, hacceptor, request]
    | loop l' =>
      have hl : l' ≠ l := by
        rintro rfl
        exact other rfl
      rw [request, hio l' hl, request]

/-- A thread that goes on leaves the others where they are. -/
theorem request_resume (id : Int) (other : th' ≠ th) :
    (s.resume id th).request th' = s.request th' := by
  cases th with
  | acceptor =>
    cases th' with
    | acceptor => exact absurd rfl other
    | loop l => rfl
  | loop l =>
    cases th' with
    | acceptor => rfl
    | loop l' =>
      have hl : l' ≠ l := by
        rintro rfl
        exact other rfl
      exact congrArg IoPc.request (Function.update_of_ne hl _ _)

/-- A thread that goes on leaves the timer. -/
@[simp] theorem tsTimer_resume (id : Int) : (s.resume id th).tsTimer = s.tsTimer := by
  cases th <;> rfl

/-- A statement of `do_close` leaves the threads where they are. -/
@[simp] theorem request_closeStmt (c : Nat) (p : ClosePc) :
    (s.closeStmt c p).request th = s.request th := by
  cases th with
  | acceptor => rw [request, closeStmt_acceptor, request]
  | loop l => rw [request, closeStmt_io, request]

end Frames

/-! ### While calls on the timer are under way -/

section Resumed

variable {th : ServerThread} {results : ServerThread → Option Int}

/-- A statement of a thread is the same, whatever the results of the others' calls are. -/
theorem step_resumed (by_ : a.by? = some th) (own : s.request th = none)
    (free : results th = none) :
    (s.resumed results tsTimer).step a = (s.step a).map fun t ↦ t.resumed results tsTimer := by
  unfold resumed
  cases th with
  | acceptor =>
    rw [free, Option.elim_none, step_withThreads_acceptor by_ own]
    cases hstep : s.step a with
    | none => rfl
    | some t =>
      have hio := (keeps_of_step_acceptor by_ own hstep).1
      rw [Option.map_some, Option.map_some, hio, Option.elim_none]
  | loop l =>
    rw [step_withThreads by_ own (by rw [free, Option.elim_none])]
    cases hstep : s.step a with
    | none => rfl
    | some t =>
      obtain ⟨hio, hacceptor, -⟩ := keeps_of_step by_ own hstep
      rw [Option.map_some, Option.map_some, withOthers, hacceptor]
      congr 2
      funext l'
      by_cases hl : l' = l
      · rw [hl, Function.update_self, free, Option.elim_none]
      · rw [Function.update_of_ne hl, hio l' hl]

/-- When a thread goes on, its result is used up. -/
theorem resumed_resume {id : Int} (result : results th = some id) :
    (s.resume id th).resumed (Function.update results th none) tsTimer =
      s.resumed results tsTimer := by
  unfold resumed
  cases th with
  | acceptor =>
    rw [Function.update_self, result]
    rfl
  | loop l =>
    have hio : (fun l' ↦ (Function.update results (.loop l) none (.loop l')).elim
        ((s.resume id (.loop l)).io l') ((s.resume id (.loop l)).io l').resume) =
          fun l' ↦ (results (.loop l')).elim (s.io l') (s.io l').resume := by
      funext l'
      by_cases hl : l' = l
      · rw [hl, Function.update_self, result]
        exact Function.update_self _ _ _
      · have hne : ServerThread.loop l' ≠ .loop l := fun h ↦ hl (ServerThread.loop.inj h)
        rw [Function.update_of_ne hne]
        have hsame : (s.resume id (.loop l)).io l' = s.io l' := Function.update_of_ne hl _ _
        rw [hsame]
    rw [hio, Function.update_of_ne ServerThread.noConfusion]
    rfl

/-- When a call has its result, its thread can be seen to have gone on. -/
theorem resumed_update {id : Int} (waits : results th = none) :
    s.resumed (Function.update results th (some id)) tsTimer =
      (s.resumed results tsTimer).resume id th := by
  unfold resumed
  cases th with
  | acceptor =>
    rw [Function.update_self, waits]
    rfl
  | loop l =>
    have hio : (fun l' ↦ (Function.update results (.loop l) (some id) (.loop l')).elim (s.io l')
        (s.io l').resume) = Function.update (fun l' ↦ (results (.loop l')).elim (s.io l')
          (s.io l').resume) l ((s.io l).resume id) := by
      funext l'
      by_cases hl : l' = l
      · rw [hl, Function.update_self, Function.update_self]
        rfl
      · have hne : ServerThread.loop l' ≠ .loop l := fun h ↦ hl (ServerThread.loop.inj h)
        rw [Function.update_of_ne hne, Function.update_of_ne hl]
    rw [hio, Function.update_of_ne ServerThread.noConfusion]
    simp only [resume, withThreads_io, withThreads_setIo, waits, Option.elim_none]
    rfl

/-- A statement of `do_close` is the same wherever the threads are. -/
theorem resumed_closeStmt (c : Nat) (p : ClosePc) :
    (s.closeStmt c p).resumed results tsTimer = (s.resumed results tsTimer).closeStmt c p := by
  unfold resumed
  rw [closeStmt_io, closeStmt_acceptor, withThreads_closeStmt]

/-- A thread that has no result is where it is. -/
theorem request_resumed (waits : results th = none) :
    (s.resumed results tsTimer).request th = s.request th := by
  cases th with
  | acceptor => rw [request, resumed, withThreads_acceptor, waits, Option.elim_none, request]
  | loop l =>
    rw [request, resumed, withThreads_io, waits, Option.elim_none, request]

end Resumed

/-! ### Calls on the timer in one piece -/

/-- A process that has not aborted makes its steps. -/
theorem step_eq_stepLive (alive : s.aborted = false) : s.step a = s.stepLive a := by
  unfold step
  rw [if_neg (by rw [alive]; exact Bool.false_ne_true)]

/-- `run_after`. -/
theorem step_runAfter {th : ServerThread} {c : Nat} (alive : s.aborted = false)
    (request : s.request th = some (.runAfter c)) :
    ∃ a : ServerAction, a.plain? = none ∧ s.step a =
      some ({ s with tsTimer := s.tsTimer.runAfter c }.resume s.tsTimer.nextId th) := by
  cases th with
  | acceptor =>
    obtain ⟨c', hat, hreq⟩ := AcceptPc.eq_of_request request
    cases hreq
    refine ⟨.acceptor true, rfl, ?_⟩
    rw [step_eq_stepLive alive]
    simp only [stepLive, acceptorStep, resume, hat]
    rfl
  | loop l =>
    obtain ⟨batch, hat⟩ := IoPc.eq_of_request_runAfter request
    refine ⟨.message l, rfl, ?_⟩
    rw [step_eq_stepLive alive]
    simp only [stepLive, messageStep, resume, hat]
    rfl

/-- `cancel`. -/
theorem step_cancel {th : ServerThread} {id : Int} (alive : s.aborted = false)
    (request : s.request th = some (.cancel id)) (id' : Int) :
    ∃ a : ServerAction, a.plain? = none ∧ s.step a =
      some ({ s with tsTimer := s.tsTimer.cancel id }.resume id' th) := by
  cases th with
  | acceptor =>
    obtain ⟨c, -, hreq⟩ := AcceptPc.eq_of_request request
    cases hreq
  | loop l =>
    obtain ⟨c, batch, hat⟩ := IoPc.eq_of_request_cancel request
    refine ⟨.message l, rfl, ?_⟩
    rw [step_eq_stepLive alive]
    simp only [stepLive, messageStep, resume, hat]
    rfl

end Server

end ConcurrentServer.Net
