import ConcurrentServer.Net.Server

/-!
# What a step of the server can do

The step function read as a relation, once for all invariants. The moves that change nothing
but the place of one loop's thread, or the stage of one timer node, are grouped; every other
statement of the source has a case of its own.
-/

namespace ConcurrentServer.Net
open ConcurrentServer.Base

namespace Server

/-- A move of the thread of loop `l` that changes nothing else. -/
inductive IoMove (s : Server) (l : Nat) : ServerAction → IoPc → IoPc → Prop
  | wait (batch) (thread : l < s.tsThreadNum) (ready : s.Ready l batch) :
      IoMove s l (.wait l batch) .poll (.lookup batch)
  | batchEnd : IoMove s l (.lookup l) (.lookup []) .poll
  | skip (e batch) : IoMove s l (.lookup l) (.lookup (e :: batch)) (.lookup batch)
  | hup (fd events batch) :
      IoMove s l (.lookup l) (.lookup ((fd, events) :: batch)) (.hup fd batch)
  | read (fd events batch c) (entry : IoEvent Callback)
      (found : (s.loops l).epEventMap fd = some entry)
      (call : entry.dispatch events = .call (.doRead c)) :
      IoMove s l (.lookup l) (.lookup ((fd, events) :: batch)) (.reading c batch)
  | write (fd events batch c) (entry : IoEvent Callback)
      (found : (s.loops l).epEventMap fd = some entry)
      (call : entry.dispatch events = .call (.doWrite c)) :
      IoMove s l (.lookup l) (.lookup ((fd, events) :: batch)) (.writing c batch)
  | readFails (c batch) : IoMove s l (.readFails l) (.reading c batch) (.closing c .enter batch)
  | readData (c batch) :
      IoMove s l (.readData l) (.reading c batch) (.message c .getTimerId batch)
  | getTimerId (c batch) :
      IoMove s l (.message l) (.message c .getTimerId batch)
        (.message c (.cancel (s.conns c).tcTimerId) batch)
  | userClose (c d batch) (known : d < s.connCount) :
      IoMove s l (.userClose l d) (.message c .user batch) (.userClosing c d .enter batch)
  | endMessage (c batch) :
      IoMove s l (.endMessage l) (.message c .user batch) (.message c .ret batch)
  | endRead (c batch) : IoMove s l (.endMessage l) (.message c .ret batch) (.lookup batch)
  | writeFails (c batch) : IoMove s l (.writeFails l) (.writing c batch) (.closing c .enter batch)
  | writeRest (c batch) : IoMove s l (.writeEnd l) (.writing c batch) (.lookup batch)
  | closed (c batch) : IoMove s l (.close l) (.closing c .ret batch) (.lookup batch)
  | userClosed (c d batch) :
      IoMove s l (.close l) (.userClosing c d .ret batch) (.message c .user batch)

/-- A move of timer node `k`, which is `tn`, that changes nothing else. -/
inductive TimerMove (s : Server) (k : Nat) (tn : TimerNode Nat ClosePc) :
    ServerAction → TimerStage ClosePc → Prop
  | expire (at_ : tn.stage = .queued) : TimerMove s k tn (.expire k) .popped
  | pass (at_ : tn.stage = .popped) (key : s.tsTimer.tmIdStateMap tn.tnId = true) :
      TimerMove s k tn (.check k) .checked
  | drop (at_ : tn.stage = .popped) (key : s.tsTimer.tmIdStateMap tn.tnId = false) :
      TimerMove s k tn (.check k) .dropped
  | post (at_ : tn.stage = .checked) : TimerMove s k tn (.post k) .posted
  | begin (at_ : tn.stage = .posted) : TimerMove s k tn (.begin k) (.running .enter)
  | done (at_ : tn.stage = .running .ret) : TimerMove s k tn (.timerClose k) .done

/-- The steps of the server. -/
inductive Step (s : Server) : ServerAction → Server → Prop
  | accept (fd) (idle : s.acceptor = .idle) (fresh : s.fdOpen fd = false)
      (started : 0 < s.tsThreadNum) : Step s (.accept fd) (s.acceptConn fd)
  | addTask (ok c) (at_ : s.acceptor = .addTask c) :
      Step s (.acceptor ok)
        ((s.addToPoller c EPOLLIN (.doRead c)).setAcceptor
          (.addTaskCtl c (s.conns c).tcLoop (s.addToPollerOp c EPOLLIN).1 (s.conns c).tcFd
            (s.addToPollerOp c EPOLLIN).2))
  | addTaskCtl (ok c l op fd ev) (at_ : s.acceptor = .addTaskCtl c l op fd ev) :
      Step s (.acceptor ok)
        ((s.addToPollerCtl l op fd ev ok).setAcceptor (.addNewTcpConn c .runAfter))
  | acceptAdd (ok c p) (at_ : s.acceptor = .addNewTcpConn c p) :
      Step s (.acceptor ok)
        ((s.addStmt c p).setAcceptor ((s.addNext p).elim .idle (.addNewTcpConn c)))
  | io (l a pc pc') (at_ : s.io l = pc) (move : IoMove s l a pc pc') : Step s a (s.setIo l pc')
  | abort (l fd events batch) (at_ : s.io l = .lookup ((fd, events) :: batch))
      (missing : (s.loops l).epEventMap fd = none) : Step s (.lookup l) { s with aborted := true }
  | cancel (l c id batch) (at_ : s.io l = .message c (.cancel id) batch) :
      Step s (.message l)
        ({ s with tsTimer := s.tsTimer.cancel id }.setIo l
          (.message c (.addNewTcpConn .runAfter) batch))
  | messageAdd (l c p batch) (at_ : s.io l = .message c (.addNewTcpConn p) batch) :
      Step s (.message l)
        ((s.addStmt c p).setIo l (.message c ((s.addNext p).elim .user .addNewTcpConn) batch))
  | send (l c d len batch) (at_ : s.io l = .message c .user batch) (known : d < s.connCount) :
      Step s (.send l d len true)
        (((s.modConn d fun tc ↦ { tc with tcObufLength := tc.tcObufLength + len }).addToPoller
          d EPOLLOUT (.doWrite d)).setIo l
            (.message c (.sendCtl (s.conns d).tcLoop (s.addToPollerOp d EPOLLOUT).1
              (s.conns d).tcFd (s.addToPollerOp d EPOLLOUT).2) batch))
  | sendFails (l d len) : Step s (.send l d len false) s
  | obuf (a d n) : Step s a (s.modConn d fun tc ↦ { tc with tcObufLength := n })
  | sendCtl (l ok c l' op fd ev batch)
      (at_ : s.io l = .message c (.sendCtl l' op fd ev) batch) :
      Step s (.ctl l ok) ((s.addToPollerCtl l' op fd ev ok).setIo l (.message c .user batch))
  | writeDel (l c op ev batch) (at_ : s.io l = .writing c batch)
      (drained : (s.conns c).tcObufLength = 0)
      (call : (epollDelEventMap (s.loops (s.conns c).tcLoop) (s.conns c).tcFd EPOLLOUT).2 =
        some (op, ev)) :
      Step s (.writeEnd l)
        ((s.modLoop (s.conns c).tcLoop fun e ↦
          (epollDelEventMap e (s.conns c).tcFd EPOLLOUT).1).setIo l
            (.writeCtl c (s.conns c).tcLoop op (s.conns c).tcFd ev batch))
  | writeCtl (l ok c l' op fd ev batch) (at_ : s.io l = .writeCtl c l' op fd ev batch) :
      Step s (.ctl l ok)
        ((s.modLoop l' fun e ↦ epollDelEventCtl e op fd ev (ok || op = .del)).setIo l
          (.lookup batch))
  | hupMap (l fd batch) (at_ : s.io l = .hup fd batch) :
      Step s (.hup l) ((s.modLoop l fun e ↦ epollDelMap e fd).setIo l (.hupCtl fd batch))
  | hupCtl (l ok fd batch) (at_ : s.io l = .hupCtl fd batch) :
      Step s (.ctl l ok) ((s.modLoop l fun e ↦ epollDelCtl e fd true).setIo l (.lookup batch))
  | close (l c p batch) (at_ : s.io l = .closing c p batch) (body : p ≠ .ret) :
      Step s (.close l) ((s.closeStmt c p).setIo l (.closing c (s.closeNext c p) batch))
  | userCloseStmt (l c d p batch) (at_ : s.io l = .userClosing c d p batch) (body : p ≠ .ret) :
      Step s (.close l) ((s.closeStmt d p).setIo l (.userClosing c d (s.closeNext d p) batch))
  | timer (k tn a stage) (node : s.tsTimer.nodes k = some tn) (move : TimerMove s k tn a stage) :
      Step s a (s.setStage k stage)
  | timerClose (k tn p) (node : s.tsTimer.nodes k = some tn) (at_ : tn.stage = .running p)
      (body : p ≠ .ret) :
      Step s (.timerClose k)
        ((s.closeStmt tn.job p).setStage k (.running (s.closeNext tn.job p)))

variable {s t : Server} {a : ServerAction}

private theorem step_of_acceptorStep {ok : Bool} (h : s.acceptorStep ok = some t) :
    Step s (.acceptor ok) t := by
  unfold acceptorStep at h
  split at h
  · cases h
  · next c hpc =>
    obtain rfl := Option.some.inj h
    exact .addTask ok c hpc
  · next c l op fd ev hpc =>
    obtain rfl := Option.some.inj h
    exact .addTaskCtl ok c l op fd ev hpc
  · next c p hpc =>
    obtain rfl := Option.some.inj h
    exact .acceptAdd ok c p hpc

private theorem step_of_lookupStep {l : Nat} {batch : List (Int × Mask)}
    (hpc : s.io l = .lookup batch) : Step s (.lookup l) (s.lookupStep l batch) := by
  match batch with
  | [] => exact .io l _ _ _ hpc .batchEnd
  | (fd, events) :: batch =>
    simp only [lookupStep]
    split
    · next hmap => exact .abort l fd events batch hpc hmap
    · next entry hmap =>
      split
      · exact .io l _ _ _ hpc (.skip _ batch)
      · exact .io l _ _ _ hpc (.hup fd events batch)
      · exact .io l _ _ _ hpc (.skip _ batch)
      · next c hcall => exact .io l _ _ _ hpc (.read fd events batch c entry hmap hcall)
      · next c hcall => exact .io l _ _ _ hpc (.write fd events batch c entry hmap hcall)

private theorem step_of_messageStep {l : Nat} {c : Nat} {batch : List (Int × Mask)}
    {p : MsgPc} (hpc : s.io l = .message c p batch)
    (h : s.messageStep l c batch p = some t) : Step s (.message l) t := by
  cases p with
  | getTimerId =>
    obtain rfl := Option.some.inj h
    exact .io l _ _ _ hpc (.getTimerId c batch)
  | cancel id =>
    obtain rfl := Option.some.inj h
    exact .cancel l c id batch hpc
  | addNewTcpConn p =>
    obtain rfl := Option.some.inj h
    exact .messageAdd l c p batch hpc
  | user => cases h
  | sendCtl l' op fd ev => cases h
  | ret => cases h

private theorem step_of_sendStep {l : Nat} {c d : Nat} {len : Nat} {ok : Bool}
    {batch : List (Int × Mask)} (hpc : s.io l = .message c .user batch)
    (known : d < s.connCount) : Step s (.send l d len ok) (s.sendStep l c d len ok batch) := by
  cases ok with
  | false => exact .sendFails l d len
  | true =>
    unfold sendStep
    simp only [reduceCtorEq, ite_false]
    split
    · exact .send l c d len batch hpc known
    · exact .obuf _ d _

private theorem step_of_writeEndStep {l : Nat} {c : Nat} {batch : List (Int × Mask)}
    (hpc : s.io l = .writing c batch) : Step s (.writeEnd l) (s.writeEndStep l c batch) := by
  unfold writeEndStep
  split
  · next hdrained =>
    dsimp only
    split
    · next hcall =>
      have hsame : s.modLoop (s.conns c).tcLoop (fun e ↦
          (epollDelEventMap e (s.conns c).tcFd EPOLLOUT).1) = s := by
        simp only [modLoop, epollDelEventMap_fst_of_none hcall, Function.update_eq_self]
      simp only [modLoop] at hsame ⊢
      rw [hsame]
      exact .io l _ _ _ hpc (.writeRest c batch)
    · next op ev hcall => exact .writeDel l c op ev batch hpc hdrained hcall
  · exact .io l _ _ _ hpc (.writeRest c batch)

private theorem step_of_ctlStep {l : Nat} {ok : Bool} (h : s.ctlStep l ok = some t) :
    Step s (.ctl l ok) t := by
  unfold ctlStep at h
  split at h
  · next c l' op fd ev batch hpc =>
    obtain rfl := Option.some.inj h
    exact .sendCtl l ok c l' op fd ev batch hpc
  · next c l' op fd ev batch hpc =>
    obtain rfl := Option.some.inj h
    exact .writeCtl l ok c l' op fd ev batch hpc
  · next fd batch hpc =>
    obtain rfl := Option.some.inj h
    exact .hupCtl l ok fd batch hpc
  · cases h

private theorem step_of_closeStep {l : Nat} (h : s.closeStep l = some t) :
    Step s (.close l) t := by
  unfold closeStep at h
  split at h
  · next c p batch hpc =>
    split at h
    · next hp =>
      obtain rfl := Option.some.inj h
      exact .io l _ _ _ hpc (hp ▸ .closed c batch)
    · next hp =>
      obtain rfl := Option.some.inj h
      exact .close l c p batch hpc hp
  · next c d p batch hpc =>
    split at h
    · next hp =>
      obtain rfl := Option.some.inj h
      exact .io l _ _ _ hpc (hp ▸ .userClosed c d batch)
    · next hp =>
      obtain rfl := Option.some.inj h
      exact .userCloseStmt l c d p batch hpc hp
  · cases h

private theorem step_of_timerStep {k : Nat} {tn : TimerNode Nat ClosePc}
    (node : s.tsTimer.nodes k = some tn)
    (ha : a ∈ [.expire k, .check k, .post k, .begin k, .timerClose k])
    (h : s.timerStep k tn a = some t) : Step s a t := by
  simp only [List.mem_cons, List.not_mem_nil, or_false] at ha
  rcases ha with rfl | rfl | rfl | rfl | rfl
  · simp only [timerStep, Option.ite_none_right_eq_some] at h
    obtain ⟨hst, rfl⟩ := h.imp_right Option.some.inj
    exact .timer k tn _ _ node (.expire hst)
  · simp only [timerStep, Option.ite_none_right_eq_some] at h
    obtain ⟨hst, rfl⟩ := h.imp_right Option.some.inj
    cases hkey : s.tsTimer.tmIdStateMap tn.tnId with
    | true => exact .timer k tn _ _ node (.pass hst hkey)
    | false => exact .timer k tn _ _ node (.drop hst hkey)
  · simp only [timerStep, Option.ite_none_right_eq_some] at h
    obtain ⟨hst, rfl⟩ := h.imp_right Option.some.inj
    exact .timer k tn _ _ node (.post hst)
  · simp only [timerStep, Option.ite_none_right_eq_some] at h
    obtain ⟨⟨hst, -⟩, rfl⟩ := h.imp_right Option.some.inj
    exact .timer k tn _ _ node (.begin hst)
  · simp only [timerStep] at h
    split at h
    · next p hst =>
      split at h
      · next hp =>
        obtain rfl := Option.some.inj h
        exact .timer k tn _ _ node (.done (hp ▸ hst))
      · next hp =>
        obtain rfl := Option.some.inj h
        exact .timerClose k tn p node hst hp
    · cases h

/-- Everything a step can do. -/
theorem step_inversion (h : s.step a = some t) : Step s a t := by
  simp only [step, Option.ite_none_left_eq_some] at h
  obtain ⟨-, h⟩ := h
  cases a with
  | accept fd =>
    simp only [stepLive, Option.ite_none_right_eq_some] at h
    obtain ⟨⟨hidle, -, hfd, hn⟩, rfl⟩ := h.imp_right Option.some.inj
    exact .accept fd hidle hfd hn
  | acceptor ok => exact step_of_acceptorStep h
  | wait l batch =>
    simp only [stepLive, Option.ite_none_right_eq_some] at h
    obtain ⟨⟨hpc, hl, hready⟩, rfl⟩ := h.imp_right Option.some.inj
    exact .io l _ _ _ hpc (.wait batch hl hready)
  | lookup l =>
    simp only [stepLive] at h
    split at h
    · next batch hpc =>
      obtain rfl := Option.some.inj h
      exact step_of_lookupStep hpc
    · cases h
  | readFails l =>
    simp only [stepLive] at h
    split at h
    · next c batch hpc =>
      obtain rfl := Option.some.inj h
      exact .io l _ _ _ hpc (.readFails c batch)
    · cases h
  | readData l =>
    simp only [stepLive] at h
    split at h
    · next c batch hpc =>
      obtain rfl := Option.some.inj h
      exact .io l _ _ _ hpc (.readData c batch)
    · cases h
  | message l =>
    simp only [stepLive] at h
    split at h
    · next c p batch hpc => exact step_of_messageStep hpc h
    · cases h
  | send l d len ok =>
    simp only [stepLive] at h
    split at h
    · next c batch hpc =>
      rw [Option.ite_none_right_eq_some] at h
      obtain ⟨hd, rfl⟩ := h.imp_right Option.some.inj
      exact step_of_sendStep hpc hd
    · cases h
  | userClose l d =>
    simp only [stepLive] at h
    split at h
    · next c batch hpc =>
      rw [Option.ite_none_right_eq_some] at h
      obtain ⟨hd, rfl⟩ := h.imp_right Option.some.inj
      exact .io l _ _ _ hpc (.userClose c d batch hd)
    · cases h
  | endMessage l =>
    simp only [stepLive] at h
    split at h
    · next c batch hpc =>
      obtain rfl := Option.some.inj h
      exact .io l _ _ _ hpc (.endMessage c batch)
    · next c batch hpc =>
      obtain rfl := Option.some.inj h
      exact .io l _ _ _ hpc (.endRead c batch)
    · cases h
  | writeFails l =>
    simp only [stepLive] at h
    split at h
    · next c batch hpc =>
      rw [Option.ite_none_right_eq_some] at h
      obtain ⟨-, rfl⟩ := h.imp_right Option.some.inj
      exact .io l _ _ _ hpc (.writeFails c batch)
    · cases h
  | writeSome l n =>
    simp only [stepLive] at h
    split at h
    · next c batch hpc =>
      rw [Option.ite_none_right_eq_some] at h
      obtain ⟨-, rfl⟩ := h.imp_right Option.some.inj
      exact .obuf _ c _
    · cases h
  | writeEnd l =>
    simp only [stepLive] at h
    split at h
    · next c batch hpc =>
      obtain rfl := Option.some.inj h
      exact step_of_writeEndStep hpc
    · cases h
  | ctl l ok => exact step_of_ctlStep h
  | close l => exact step_of_closeStep h
  | hup l =>
    simp only [stepLive] at h
    split at h
    · next fd batch hpc =>
      obtain rfl := Option.some.inj h
      exact .hupMap l fd batch hpc
    · cases h
  | expire k =>
    simp only [stepLive] at h
    split at h
    · next tn hk => exact step_of_timerStep hk (by simp) h
    · cases h
  | check k =>
    simp only [stepLive] at h
    split at h
    · next tn hk => exact step_of_timerStep hk (by simp) h
    · cases h
  | post k =>
    simp only [stepLive] at h
    split at h
    · next tn hk => exact step_of_timerStep hk (by simp) h
    · cases h
  | begin k =>
    simp only [stepLive] at h
    split at h
    · next tn hk => exact step_of_timerStep hk (by simp) h
    · cases h
  | timerClose k =>
    simp only [stepLive] at h
    split at h
    · next tn hk => exact step_of_timerStep hk (by simp) h
    · cases h

/-! ### Frames -/

/-- A statement of `do_close` moves no thread. -/
@[simp] theorem closeStmt_io (s : Server) (c : Nat) (p : ClosePc) :
    (s.closeStmt c p).io = s.io := by
  cases p <;> rfl

@[simp] theorem closeStmt_acceptor (s : Server) (c : Nat) (p : ClosePc) :
    (s.closeStmt c p).acceptor = s.acceptor := by
  cases p <;> rfl

@[simp] theorem closeStmt_tsTimer (s : Server) (c : Nat) (p : ClosePc) :
    (s.closeStmt c p).tsTimer = s.tsTimer := by
  cases p <;> rfl

@[simp] theorem closeStmt_connCount (s : Server) (c : Nat) (p : ClosePc) :
    (s.closeStmt c p).connCount = s.connCount := by
  cases p <;> rfl

@[simp] theorem closeStmt_tsThreadNum (s : Server) (c : Nat) (p : ClosePc) :
    (s.closeStmt c p).tsThreadNum = s.tsThreadNum := by
  cases p <;> rfl

/-- A step of `do_clean` leaves the connections, but for one count of its own. -/
theorem conns_doClean (s : Server) (c : Nat) (p : CleanPc) (d : Nat) :
    (s.closeStmt c (.doClean p)).conns d =
      { s.conns d with closed := ((s.closeStmt c (.doClean p)).conns d).closed } := by
  simp only [closeStmt, cleanStmt, modConn_conns]
  by_cases hd : d = c
  · rw [hd, Function.update_self]
  · rw [Function.update_of_ne hd]

/-- A statement of `add_new_tcp_conn` moves no thread. -/
@[simp] theorem addStmt_io (s : Server) (c : Nat) (p : AddPc) : (s.addStmt c p).io = s.io := by
  cases p <;> rfl

@[simp] theorem addStmt_acceptor (s : Server) (c : Nat) (p : AddPc) :
    (s.addStmt c p).acceptor = s.acceptor := by
  cases p <;> rfl

@[simp] theorem addStmt_connCount (s : Server) (c : Nat) (p : AddPc) :
    (s.addStmt c p).connCount = s.connCount := by
  cases p <;> rfl

@[simp] theorem addStmt_loops (s : Server) (c : Nat) (p : AddPc) :
    (s.addStmt c p).loops = s.loops := by
  cases p <;> rfl

@[simp] theorem addStmt_tsThreadNum (s : Server) (c : Nat) (p : AddPc) :
    (s.addStmt c p).tsThreadNum = s.tsThreadNum := by
  cases p <;> rfl

/-- The number of loops is fixed. -/
theorem Step.tsThreadNum (h : Step s a t) : t.tsThreadNum = s.tsThreadNum := by
  cases h <;> simp [addToPoller, addToPollerCtl]

/-- What a step does to the acceptor's thread. -/
inductive AcceptorMove (s t : Server) : Prop
  | stay (same : t.acceptor = s.acceptor)
  | accept (idle : s.acceptor = .idle) (after : t.acceptor = .addTask s.connCount)
      (count : t.connCount = s.connCount + 1)
  | addTask (c l op fd ev) (at_ : s.acceptor = .addTask c)
      (after : t.acceptor = .addTaskCtl c l op fd ev)
  | addTaskCtl (c l op fd ev) (at_ : s.acceptor = .addTaskCtl c l op fd ev)
      (after : t.acceptor = .addNewTcpConn c .runAfter)
  | acceptAdd (c p) (at_ : s.acceptor = .addNewTcpConn c p)
      (after : t.acceptor = (s.addNext p).elim .idle (.addNewTcpConn c))
      (timer : t.tsTimer = (s.addStmt c p).tsTimer)

/-- Every step does one of these. -/
theorem Step.acceptorMove (h : Step s a t) : AcceptorMove s t := by
  cases h with
  | accept fd idle fresh started => exact .accept idle rfl rfl
  | addTask ok c at_ => exact .addTask c _ _ _ _ at_ rfl
  | addTaskCtl ok c l op fd ev at_ => exact .addTaskCtl c l op fd ev at_ rfl
  | acceptAdd ok c p at_ => exact .acceptAdd c p at_ rfl rfl
  | messageAdd l c p batch at_ => exact .stay (addStmt_acceptor s c p)
  | close l c p batch at_ body => exact .stay (closeStmt_acceptor s c p)
  | userCloseStmt l c d p batch at_ body => exact .stay (closeStmt_acceptor s d p)
  | timerClose k tn p node at_ body => exact .stay (closeStmt_acceptor s tn.job p)
  | _ => exact .stay rfl

/-- At most one loop's thread moves, and it was not idle unless it is one of the server's. -/
theorem Step.io_eq (h : Step s a t) :
    t.io = s.io ∨ ∃ l pc, t.io = Function.update s.io l pc ∧
      (l < s.tsThreadNum ∨ s.io l ≠ .poll) := by
  cases h with
  | io l a pc pc' at_ move =>
    refine Or.inr ⟨l, pc', rfl, ?_⟩
    cases move with
    | wait batch thread ready => exact Or.inl thread
    | _ => exact Or.inr (by rw [at_]; exact nofun)
  | cancel l c id batch at_ => exact Or.inr ⟨l, _, rfl, Or.inr (by rw [at_]; exact nofun)⟩
  | messageAdd l c p batch at_ =>
    refine Or.inr ⟨l, .message c ((s.addNext p).elim .user .addNewTcpConn) batch, ?_,
      Or.inr (by rw [at_]; exact nofun)⟩
    rw [← addStmt_io s c p]
    rfl
  | send l c d len batch at_ known =>
    exact Or.inr ⟨l, _, rfl, Or.inr (by rw [at_]; exact nofun)⟩
  | sendCtl l ok c l' op fd ev batch at_ =>
    exact Or.inr ⟨l, _, rfl, Or.inr (by rw [at_]; exact nofun)⟩
  | writeDel l c op ev batch at_ drained call =>
    exact Or.inr ⟨l, _, rfl, Or.inr (by rw [at_]; exact nofun)⟩
  | writeCtl l ok c l' op fd ev batch at_ =>
    exact Or.inr ⟨l, _, rfl, Or.inr (by rw [at_]; exact nofun)⟩
  | hupMap l fd batch at_ => exact Or.inr ⟨l, _, rfl, Or.inr (by rw [at_]; exact nofun)⟩
  | hupCtl l ok fd batch at_ => exact Or.inr ⟨l, _, rfl, Or.inr (by rw [at_]; exact nofun)⟩
  | close l c p batch at_ body =>
    refine Or.inr ⟨l, .closing c (s.closeNext c p) batch, ?_,
      Or.inr (by rw [at_]; exact nofun)⟩
    rw [← closeStmt_io s c p]
    rfl
  | userCloseStmt l c d p batch at_ body =>
    refine Or.inr ⟨l, .userClosing c d (s.closeNext d p) batch, ?_,
      Or.inr (by rw [at_]; exact nofun)⟩
    rw [← closeStmt_io s d p]
    rfl
  | acceptAdd ok c p at_ => exact Or.inl (addStmt_io s c p)
  | timerClose k tn p node at_ body => exact Or.inl (closeStmt_io s tn.job p)
  | _ => exact Or.inl rfl

/-- A property of a thread's place that a move of one thread does not create. -/
theorem io_of_setIo {u : Server} {l₀ l : Nat} {p p' : IoPc} {P : IoPc → Prop}
    (h : P ((u.setIo l₀ p').io l)) (io : u.io = s.io) (at_ : s.io l₀ = p)
    (same : P p' → P p) : P (s.io l) := by
  rw [setIo_io, io] at h
  by_cases hl : l = l₀
  · subst hl
    rw [Function.update_self] at h
    rw [at_]
    exact same h
  · rwa [Function.update_of_ne hl] at h

/-- After one thread has moved, a thread is where it was, or it is that one. -/
theorem io_setIo_eq {u : Server} {l₀ l : Nat} {pc pc' : IoPc} (h : (u.setIo l₀ pc').io l = pc) :
    u.io l = pc ∨ (l = l₀ ∧ pc' = pc) := by
  rw [setIo_io] at h
  by_cases hl : l = l₀
  · exact Or.inr ⟨hl, by rwa [hl, Function.update_self] at h⟩
  · exact Or.inl (by rwa [Function.update_of_ne hl] at h)

/-- There is no thread beyond the loops of the server. -/
def NoOtherThread (s : Server) : Prop := ∀ l, s.tsThreadNum ≤ l → s.io l = .poll

theorem noOtherThread_init (n : Nat) (elEvfd : Nat → Int) : (init n elEvfd).NoOtherThread :=
  fun _ _ ↦ rfl

theorem NoOtherThread.step (h : s.NoOtherThread) (hstep : Step s a t) : t.NoOtherThread := by
  intro l hl
  rw [hstep.tsThreadNum] at hl
  rcases hstep.io_eq with he | ⟨l', pc, he, hl'⟩
  · rw [he]; exact h l hl
  · rw [he]
    by_cases hll : l = l'
    · rcases hl' with hl' | hl'
      · omega
      · exact absurd (h l' (hll ▸ hl)) hl'
    · rw [Function.update_of_ne hll]; exact h l hl

/-- Nodes keep their numbers. -/
theorem Step.numbered (hstep : Step s a t) (h : s.tsTimer.Numbered) : t.tsTimer.Numbered := by
  cases hstep with
  | acceptAdd ok c p at_ =>
    cases p with
    | runAfter => exact h.runAfter c
    | setTimerId id => exact h
    | emplaceBack => exact h
  | cancel l c id batch at_ => exact h
  | messageAdd l c p batch at_ =>
    cases p with
    | runAfter => exact h.runAfter c
    | setTimerId id => exact h
    | emplaceBack => exact h
  | close l c p batch at_ body =>
    rw [setIo_tsTimer, closeStmt_tsTimer]
    exact h
  | userCloseStmt l c d p batch at_ body =>
    rw [setIo_tsTimer, closeStmt_tsTimer]
    exact h
  | timer k tn a stage node move => exact h.setStage k stage
  | timerClose k tn p node at_ body =>
    rw [setStage_tsTimer, closeStmt_tsTimer]
    exact h.setStage k _
  | _ => exact h

end Server

end ConcurrentServer.Net
