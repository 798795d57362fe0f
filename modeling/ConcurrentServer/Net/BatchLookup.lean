import ConcurrentServer.Base.Run
import ConcurrentServer.Net.ServerStep

/-!
# The look-ups of `execute_cbs`

`src/net/epoll.cpp:20–129` under the threads that change `ep_event_map` meanwhile. The batch
that `epoll_wait` returned is a snapshot; `execute_cbs` asserts that every event of it still
finds its descriptor in the map.
-/

namespace ConcurrentServer.Net
open ConcurrentServer.Base

/-- The ready events that the thread has not looked up. -/
def IoPc.batch : IoPc → List (Int × Mask)
  | .poll => []
  | .lookup batch | .reading _ batch | .message _ _ batch | .writing _ batch
  | .writeCtl _ _ _ _ _ batch | .closing _ _ batch | .userClosing _ _ _ batch
  | .hup _ batch | .hupCtl _ batch => batch

/-- The thread has written `fd` to the map of loop `l` and will register it. -/
def IoPc.adds (l : Nat) (fd : Int) : IoPc → Bool
  | .message _ (.sendCtl l' _ fd' _) _ => l' = l && fd' = fd
  | _ => false

/-- The acceptor's thread has written `fd` to the map of loop `l` and will register it. -/
def AcceptPc.adds (l : Nat) (fd : Int) : AcceptPc → Bool
  | .addTaskCtl _ l' _ fd' _ => l' = l && fd' = fd
  | _ => false

/-- The statement before `EPOLL_CTL_DEL`. -/
def ClosePc.deletes (l : Nat) (fd : Int) : ClosePc → Bool
  | .delCtl l' fd' => l' = l && fd' = fd
  | _ => false

/-- The thread of loop `self` has erased `fd` from the map of loop `l` and will take it out of
the kernel's set. -/
def IoPc.deletes (self l : Nat) (fd : Int) : IoPc → Bool
  | .closing _ p _ | .userClosing _ _ p _ => p.deletes l fd
  | .writeCtl _ l' op fd' _ _ => l' = l && fd' = fd && op = .del
  | .hupCtl fd' _ => self = l && fd' = fd
  | _ => false

/-- The callback of the node has erased `fd` from the map of loop `l` and will take it out of
the kernel's set. -/
def TimerNode.deletes (l : Nat) (fd : Int) (tn : TimerNode Nat ClosePc) : Bool :=
  match tn.stage with
  | .running p => p.deletes l fd
  | _ => false

namespace Server

/-- Some thread has written `fd` to the map of loop `l` and will register it. -/
def Adding (s : Server) (l : Nat) (fd : Int) : Prop :=
  s.acceptor.adds l fd = true ∨ ∃ l' < s.tsThreadNum, (s.io l').adds l fd = true

/-- Some thread has erased `fd` from the map of loop `l` and will take it out of the kernel's
set. -/
def Deleting (s : Server) (l : Nat) (fd : Int) : Prop :=
  (∃ l' < s.tsThreadNum, (s.io l').deletes l' l fd = true) ∨
    ∃ k < s.tsTimer.tmCount, (s.tsTimer.nodes k).any (TimerNode.deletes l fd) = true

instance (s : Server) (l : Nat) (fd : Int) : Decidable (s.Adding l fd) :=
  inferInstanceAs (Decidable (_ ∨ _))

instance (s : Server) (l : Nat) (fd : Int) : Decidable (s.Deleting l fd) :=
  inferInstanceAs (Decidable (_ ∨ _))

/-- The loop and the descriptor of the map entry that an action erases. -/
def erases (s : Server) (a : ServerAction) : Option (Nat × Int) :=
  match s.closeStatement a with
  | some (c, .delMap fd) => some ((s.conns c).tcLoop, fd)
  | some _ => none
  | none =>
    match a with
    | .hup l =>
      match s.io l with
      | .hup fd _ => some (l, fd)
      | _ => none
    | .writeEnd l =>
      match s.io l with
      | .writing c _ =>
        match (epollDelEventMap (s.loops (s.conns c).tcLoop) (s.conns c).tcFd EPOLLOUT).2 with
        | some (.del, _) =>
          if (s.conns c).tcObufLength = 0 then some ((s.conns c).tcLoop, (s.conns c).tcFd)
          else none
        | _ => none
      | _ => none
    | _ => none

/-- The events that `epoll_wait` returns in an action. -/
def waits : ServerAction → Option (Nat × List (Int × Mask))
  | .wait l batch => some (l, batch)
  | _ => none

/-- The condition on a step: it erases no descriptor that a batch has still to look up or that
is being registered, and `epoll_wait` reports no descriptor whose deletion is under way. -/
structure SparesBatch (s : Server) (a : ServerAction) : Prop where
  spares : ∀ x ∈ s.erases a, x.2 ∉ (s.io x.1).batch.map Prod.fst ∧ ¬ s.Adding x.1 x.2
  settled : ∀ x ∈ waits a, ∀ e ∈ x.2, ¬ s.Deleting x.1 e.1

instance (s : Server) (a : ServerAction) : Decidable (s.SparesBatch a) :=
  decidable_of_iff
    ((∀ x ∈ s.erases a, x.2 ∉ (s.io x.1).batch.map Prod.fst ∧ ¬ s.Adding x.1 x.2) ∧
      ∀ x ∈ waits a, ∀ e ∈ x.2, ¬ s.Deleting x.1 e.1)
    ⟨fun h ↦ ⟨h.1, h.2⟩, fun h ↦ ⟨h.1, h.2⟩⟩

/-- `fd` is a key of the map of loop `l`. -/
def Key (s : Server) (l : Nat) (fd : Int) : Prop := ((s.loops l).epEventMap fd).isSome

/-- The kernel watches `fd` for loop `l`. -/
def Watched (s : Server) (l : Nat) (fd : Int) : Prop := ((s.loops l).interest fd).isSome

/-- What the condition keeps: no assertion has failed, every event still to be looked up finds
its descriptor, what the kernel watches is in the map or being deleted, and what is being
registered is in the map. -/
structure Found (s : Server) : Prop where
  threads : s.NoOtherThread
  numbered : s.tsTimer.Numbered
  alive : s.aborted = false
  batch : ∀ l, ∀ e ∈ (s.io l).batch, s.Key l e.1
  watched : ∀ l fd, s.Watched l fd → s.Key l fd ∨ s.Deleting l fd
  adding : ∀ l fd, s.Adding l fd → s.Key l fd

variable {s t : Server} {a : ServerAction}

/-! ### What a step does to the maps, the kernel's sets and the threads between them -/

/-- `s.Deleting` from any thread. -/
theorem deleting_of_io (threads : s.NoOtherThread) {l m : Nat} {fd : Int}
    (h : (s.io m).deletes m l fd = true) : s.Deleting l fd := by
  by_cases hl : m < s.tsThreadNum
  · exact Or.inl ⟨m, hl, h⟩
  · rw [threads m (by omega)] at h
    cases h

theorem deleting_of_timer (numbered : s.tsTimer.Numbered) {k l : Nat} {fd : Int}
    {tn : TimerNode Nat ClosePc} (node : s.tsTimer.nodes k = some tn)
    (h : tn.deletes l fd = true) : s.Deleting l fd :=
  Or.inr ⟨k, (numbered k tn node).1, by rw [node]; exact h⟩

theorem adding_of_io (threads : s.NoOtherThread) {l m : Nat} {fd : Int}
    (h : (s.io m).adds l fd = true) : s.Adding l fd := by
  by_cases hl : m < s.tsThreadNum
  · exact Or.inr ⟨m, hl, h⟩
  · rw [threads m (by omega)] at h
    cases h

/-- The keys after a statement of `do_close`. -/
theorem key_closeStmt (c : Nat) (p : ClosePc) {l : Nat} {fd : Int} (h : s.Key l fd) :
    (s.closeStmt c p).Key l fd ∨ (p = .delMap fd ∧ l = (s.conns c).tcLoop) := by
  cases p with
  | delMap fd' =>
    by_cases hl : l = (s.conns c).tcLoop
    · by_cases hfd : fd = fd'
      · exact Or.inr ⟨by rw [hfd], hl⟩
      · refine Or.inl ?_
        simpa [Key, closeStmt, hl, isSome_epEventMap_epollDelMap, hfd] using hl ▸ h
    · refine Or.inl ?_
      simpa [Key, closeStmt, hl] using h
  | delCtl l' fd' =>
    refine Or.inl ?_
    by_cases hl : l = l'
    · simpa [Key, closeStmt, hl, epollDelCtl] using hl ▸ h
    · simpa [Key, closeStmt, hl] using h
  | _ => exact Or.inl h

/-- The kernel's sets after a statement of `do_close`. -/
theorem watched_closeStmt (c : Nat) (p : ClosePc) {l : Nat} {fd : Int}
    (h : (s.closeStmt c p).Watched l fd) : s.Watched l fd ∧ p.deletes l fd = false := by
  cases p with
  | delMap fd' =>
    refine ⟨?_, rfl⟩
    by_cases hl : l = (s.conns c).tcLoop
    · simpa [Watched, closeStmt, hl, epollDelMap] using h
    · simpa [Watched, closeStmt, hl] using h
  | delCtl l' fd' =>
    by_cases hl : l = l'
    · by_cases hfd : fd = fd'
      · simp [Watched, closeStmt, hl, hfd, interest_epollDelCtl] at h
      · subst hl
        simp only [Watched, closeStmt, modLoop_loops, Function.update_self,
          interest_epollDelCtl, if_neg hfd] at h
        exact ⟨h, by simpa [ClosePc.deletes] using Ne.symm hfd⟩
    · refine ⟨by simpa [Watched, closeStmt, hl] using h, ?_⟩
      simp [ClosePc.deletes, Ne.symm hl]
  | closeFd fd' =>
    refine ⟨?_, rfl⟩
    by_cases hfd : fd = fd'
    · simp [Watched, closeStmt, hfd] at h
    · simpa [Watched, closeStmt, hfd] using h
  | _ => exact ⟨h, rfl⟩

/-- The keys after `add_to_poller`. -/
theorem key_addToPoller (c : Nat) (event : Mask) (cb : Callback) {l : Nat} {fd : Int}
    (h : s.Key l fd) : (s.addToPoller c event cb).Key l fd := by
  by_cases hl : l = (s.conns c).tcLoop
  · simp [Key, addToPoller, hl, isSome_epEventMap_epollAddMap, hl ▸ (show (_ : Bool) = true from h)]
  · simpa [Key, addToPoller, hl] using h

/-- `add_to_poller` enters its descriptor. -/
theorem key_addToPoller_self (c : Nat) (event : Mask) (cb : Callback) :
    (s.addToPoller c event cb).Key (s.conns c).tcLoop (s.conns c).tcFd := by
  simp [Key, addToPoller, isSome_epEventMap_epollAddMap]

/-- The pending call of an `epoll_add` leaves the keys alone. -/
theorem key_addToPollerCtl (l' : Nat) (op : CtlOp) (fd' : Int) (ev : Mask) (ok : Bool)
    {l : Nat} {fd : Int} : (s.addToPollerCtl l' op fd' ev ok).Key l fd ↔ s.Key l fd := by
  by_cases hl : l = l'
  · simp [Key, addToPollerCtl, hl]
  · simp [Key, addToPollerCtl, hl]

/-- `add_to_poller` does not touch the kernel's sets before its `epoll_ctl`. -/
theorem watched_addToPoller (c : Nat) (event : Mask) (cb : Callback) {l : Nat} {fd : Int} :
    (s.addToPoller c event cb).Watched l fd ↔ s.Watched l fd := by
  by_cases hl : l = (s.conns c).tcLoop
  · simp [Watched, addToPoller, hl, epollAddMap]
  · simp [Watched, addToPoller, hl]

/-- The pending call of an `epoll_add` registers its own descriptor at most. -/
theorem watched_addToPollerCtl {l' : Nat} {op : CtlOp} {fd' : Int} {ev : Mask} {ok : Bool}
    {l : Nat} {fd : Int} (h : (s.addToPollerCtl l' op fd' ev ok).Watched l fd) :
    s.Watched l fd ∨ (l' = l ∧ fd' = fd) := by
  by_cases hl : l = l'
  · by_cases hfd : fd = fd'
    · exact Or.inr ⟨hl.symm, hfd.symm⟩
    · refine Or.inl ?_
      subst hl
      simpa [Watched, addToPollerCtl, interest_epollAddCtl_of_ne _ _ _ _ hfd] using h
  · exact Or.inl (by simpa [Watched, addToPollerCtl, hl] using h)

/-- A step removes no key but the one it erases, and then goes on to delete it. -/
theorem Step.key (hstep : Step s a t) (threads : t.NoOtherThread)
    (numbered : t.tsTimer.Numbered) {l : Nat} {fd : Int} (h : s.Key l fd) :
    t.Key l fd ∨ (s.erases a = some (l, fd) ∧ t.Deleting l fd) := by
  cases hstep with
  | addTask ok c at_ => exact Or.inl (key_addToPoller c EPOLLIN (.doRead c) h)
  | addTaskCtl ok c l' op fd' ev at_ => exact Or.inl ((key_addToPollerCtl l' op fd' ev ok).mpr h)
  | acceptAdd ok c p at_ =>
    refine Or.inl ?_
    rw [Key, setAcceptor_loops, addStmt_loops]
    exact h
  | messageAdd l' c p batch at_ =>
    refine Or.inl ?_
    rw [Key, setIo_loops, addStmt_loops]
    exact h
  | send l' c d len batch at_ known =>
    refine Or.inl ?_
    have := key_addToPoller (s := s.modConn d fun tc ↦
      { tc with tcObufLength := tc.tcObufLength + len }) d EPOLLOUT (.doWrite d) h
    exact this
  | sendCtl l' ok c l'' op fd' ev batch at_ =>
    exact Or.inl ((key_addToPollerCtl l'' op fd' ev ok).mpr h)
  | writeDel l' c op ev batch at_ drained call =>
    by_cases hl : l = (s.conns c).tcLoop
    · subst hl
      have hkey := isSome_epEventMap_epollDelEventMap call fd
      by_cases hdel : op = .del ∧ fd = (s.conns c).tcFd
      · obtain ⟨rfl, rfl⟩ := hdel
        refine Or.inr ⟨by simp [erases, closeStatement, at_, call, drained], ?_⟩
        exact deleting_of_io threads (m := l') (by simp [IoPc.deletes])
      · refine Or.inl ?_
        simp only [Key, setIo_loops, modLoop_loops, Function.update_self]
        rw [hkey, decide_eq_true hdel]
        exact h
    · exact Or.inl (by simpa [Key, hl] using h)
  | writeCtl l' ok c l'' op fd' ev batch at_ =>
    refine Or.inl ?_
    by_cases hl : l = l''
    · simpa [Key, hl] using hl ▸ h
    · simpa [Key, hl] using h
  | hupMap l' fd' batch at_ =>
    by_cases hl : l = l'
    · subst hl
      by_cases hfd : fd = fd'
      · refine Or.inr ⟨by simp [erases, closeStatement, at_, hfd], ?_⟩
        exact deleting_of_io threads (m := l) (by simp [IoPc.deletes, hfd])
      · exact Or.inl (by simpa [Key, isSome_epEventMap_epollDelMap, hfd] using h)
    · exact Or.inl (by simpa [Key, hl] using h)
  | hupCtl l' ok fd' batch at_ =>
    refine Or.inl ?_
    by_cases hl : l = l'
    · simpa [Key, hl, epollDelCtl] using hl ▸ h
    · simpa [Key, hl] using h
  | close l' c p batch at_ body =>
    refine (key_closeStmt c p h).imp_right ?_
    rintro ⟨rfl, rfl⟩
    refine ⟨by simp [erases, closeStatement, at_], deleting_of_io threads (m := l') ?_⟩
    simp [IoPc.deletes, ClosePc.deletes, closeNext]
  | userCloseStmt l' c d p batch at_ body =>
    refine (key_closeStmt d p h).imp_right ?_
    rintro ⟨rfl, rfl⟩
    refine ⟨by simp [erases, closeStatement, at_], deleting_of_io threads (m := l') ?_⟩
    simp [IoPc.deletes, ClosePc.deletes, closeNext]
  | timerClose k tn p node at_ body =>
    refine (key_closeStmt tn.job p h).imp_right ?_
    rintro ⟨rfl, rfl⟩
    obtain ⟨id, c, stage⟩ := tn
    simp only at at_
    refine ⟨by simp [erases, closeStatement, node, at_], ?_⟩
    have hnode : (s.tsTimer.setStage k (.running (s.closeNext c (.delMap fd)))).nodes k =
        some ⟨id, c, .running (s.closeNext c (.delMap fd))⟩ := by
      rw [TimerState.nodes_setStage, node]
      simp
    refine deleting_of_timer numbered (k := k) (by rwa [setStage_tsTimer, closeStmt_tsTimer]) ?_
    simp [TimerNode.deletes, ClosePc.deletes, closeNext]
  | _ => exact Or.inl h

/-- A step registers no descriptor but one that was being added. -/
theorem Step.watched (hstep : Step s a t) (threads : s.NoOtherThread) {l : Nat} {fd : Int}
    (h : t.Watched l fd) : s.Watched l fd ∨ s.Adding l fd := by
  cases hstep with
  | addTask ok c at_ => exact Or.inl ((watched_addToPoller c EPOLLIN (.doRead c)).mp h)
  | addTaskCtl ok c l' op fd' ev at_ =>
    refine (watched_addToPollerCtl h).imp_right fun hown ↦ Or.inl ?_
    simpa [at_, AcceptPc.adds] using hown
  | acceptAdd ok c p at_ =>
    refine Or.inl ?_
    rw [Watched, setAcceptor_loops, addStmt_loops] at h
    exact h
  | messageAdd l' c p batch at_ =>
    refine Or.inl ?_
    rw [Watched, setIo_loops, addStmt_loops] at h
    exact h
  | send l' c d len batch at_ known =>
    exact Or.inl ((watched_addToPoller (s := s.modConn d fun tc ↦
      { tc with tcObufLength := tc.tcObufLength + len }) d EPOLLOUT (.doWrite d)).mp h)
  | sendCtl l' ok c l'' op fd' ev batch at_ =>
    refine (watched_addToPollerCtl h).imp_right fun hown ↦ adding_of_io threads (m := l') ?_
    simpa [at_, IoPc.adds] using hown
  | writeDel l' c op ev batch at_ drained call =>
    refine Or.inl ?_
    by_cases hl : l = (s.conns c).tcLoop
    · simpa [Watched, hl] using h
    · simpa [Watched, hl] using h
  | writeCtl l' ok c l'' op fd' ev batch at_ =>
    refine Or.inl ?_
    by_cases hl : l = l''
    · subst hl
      simp only [Watched, setIo_loops, modLoop_loops, Function.update_self] at h
      exact isSome_interest_of_epollDelEventCtl h
    · simpa [Watched, hl] using h
  | hupMap l' fd' batch at_ =>
    refine Or.inl ?_
    by_cases hl : l = l'
    · simpa [Watched, hl, epollDelMap] using h
    · simpa [Watched, hl] using h
  | hupCtl l' ok fd' batch at_ =>
    refine Or.inl ?_
    by_cases hl : l = l'
    · by_cases hfd : fd = fd'
      · simp [Watched, hl, hfd, interest_epollDelCtl] at h
      · simpa [Watched, hl, hfd, interest_epollDelCtl] using h
    · simpa [Watched, hl] using h
  | close l' c p batch at_ body => exact Or.inl (watched_closeStmt c p h).1
  | userCloseStmt l' c d p batch at_ body => exact Or.inl (watched_closeStmt d p h).1
  | timerClose k tn p node at_ body => exact Or.inl (watched_closeStmt tn.job p h).1
  | _ => exact Or.inl h

/-- What is being added is read off three components. -/
theorem adding_congr (acceptor : t.acceptor = s.acceptor) (io : t.io = s.io)
    (n : t.tsThreadNum = s.tsThreadNum) {l : Nat} {fd : Int} :
    t.Adding l fd ↔ s.Adding l fd := by
  simp only [Adding, acceptor, io, n]

/-- A thread moves to a place where it adds nothing. -/
theorem Adding.of_setIo {l₀ l : Nat} {pc : IoPc} {fd : Int} (h : (s.setIo l₀ pc).Adding l fd)
    (hpc : pc.adds l fd = false) : s.Adding l fd := by
  refine h.imp_right ?_
  rintro ⟨l', hl', hadds⟩
  refine ⟨l', hl', ?_⟩
  rw [setIo_io] at hadds
  by_cases hl : l' = l₀
  · rw [hl, Function.update_self, hpc] at hadds
    cases hadds
  · rwa [Function.update_of_ne hl] at hadds

/-- The acceptor's thread moves to a place where it adds nothing. -/
theorem Adding.of_setAcceptor {pc : AcceptPc} {l : Nat} {fd : Int}
    (h : (s.setAcceptor pc).Adding l fd) (hpc : pc.adds l fd = false) : s.Adding l fd := by
  refine Or.inr (h.resolve_left ?_)
  rw [setAcceptor_acceptor, hpc]
  exact nofun

/-- A move that calls `epoll_add` on nothing. -/
theorem IoMove.adds {l₀ l : Nat} {fd : Int} {pc pc' : IoPc} (h : IoMove s l₀ a pc pc') :
    pc'.adds l fd = false := by
  cases h <;> rfl

/-- What begins to be added is in the map. -/
theorem Step.adding (hstep : Step s a t) {l : Nat} {fd : Int} (h : t.Adding l fd) :
    s.Adding l fd ∨ t.Key l fd := by
  cases hstep with
  | accept fd' idle fresh started => exact Or.inl (h.imp_left nofun)
  | addTask ok c at_ =>
    rcases h with h | h
    · obtain ⟨rfl, rfl⟩ : (s.conns c).tcLoop = l ∧ (s.conns c).tcFd = fd := by
        simpa [AcceptPc.adds] using h
      exact Or.inr (key_addToPoller_self c EPOLLIN (.doRead c))
    · exact Or.inl (Or.inr h)
  | addTaskCtl ok c l' op fd' ev at_ =>
    refine Or.inl ((adding_congr ?_ ?_ ?_).mp (h.of_setAcceptor rfl)) <;> rfl
  | acceptAdd ok c p at_ =>
    refine Or.inl ((adding_congr ?_ ?_ ?_).mp (h.of_setAcceptor ?_))
    · exact addStmt_acceptor s c p
    · exact addStmt_io s c p
    · exact addStmt_tsThreadNum s c p
    · cases p <;> rfl
  | io l₀ a pc pc' at_ move => exact Or.inl (h.of_setIo move.adds)
  | cancel l₀ c id batch at_ =>
    refine Or.inl ((adding_congr ?_ ?_ ?_).mp (h.of_setIo rfl)) <;> rfl
  | messageAdd l₀ c p batch at_ =>
    refine Or.inl ((adding_congr ?_ ?_ ?_).mp (h.of_setIo ?_))
    · exact addStmt_acceptor s c p
    · exact addStmt_io s c p
    · exact addStmt_tsThreadNum s c p
    · cases p <;> rfl
  | send l₀ c d len batch at_ known =>
    by_cases hown : (s.conns d).tcLoop = l ∧ (s.conns d).tcFd = fd
    · obtain ⟨rfl, rfl⟩ := hown
      have hkey := key_addToPoller_self (s := s.modConn d fun tc ↦
        { tc with tcObufLength := tc.tcObufLength + len }) d EPOLLOUT (.doWrite d)
      simp only [modConn_conns, Function.update_self] at hkey
      exact Or.inr hkey
    · refine Or.inl ((adding_congr ?_ ?_ ?_).mp (h.of_setIo (by simpa [IoPc.adds] using hown)))
      all_goals rfl
  | sendCtl l₀ ok c l' op fd' ev batch at_ =>
    refine Or.inl ((adding_congr ?_ ?_ ?_).mp (h.of_setIo rfl)) <;> rfl
  | writeDel l₀ c op ev batch at_ drained call =>
    refine Or.inl ((adding_congr ?_ ?_ ?_).mp (h.of_setIo rfl)) <;> rfl
  | writeCtl l₀ ok c l' op fd' ev batch at_ =>
    refine Or.inl ((adding_congr ?_ ?_ ?_).mp (h.of_setIo rfl)) <;> rfl
  | hupMap l₀ fd' batch at_ =>
    refine Or.inl ((adding_congr ?_ ?_ ?_).mp (h.of_setIo rfl)) <;> rfl
  | hupCtl l₀ ok fd' batch at_ =>
    refine Or.inl ((adding_congr ?_ ?_ ?_).mp (h.of_setIo rfl)) <;> rfl
  | close l₀ c p batch at_ body =>
    exact Or.inl ((adding_congr (closeStmt_acceptor s c p) (closeStmt_io s c p)
      (closeStmt_tsThreadNum s c p)).mp (h.of_setIo rfl))
  | userCloseStmt l₀ c d p batch at_ body =>
    exact Or.inl ((adding_congr (closeStmt_acceptor s d p) (closeStmt_io s d p)
      (closeStmt_tsThreadNum s d p)).mp (h.of_setIo rfl))
  | timerClose k tn p node at_ body =>
    exact Or.inl ((adding_congr (closeStmt_acceptor s _ p) (closeStmt_io s _ p)
      (closeStmt_tsThreadNum s _ p)).mp h)
  | _ => exact Or.inl h

/-- What is being deleted is read off three components. -/
theorem Deleting.congr {l : Nat} {fd : Int} (h : s.Deleting l fd) (io : t.io = s.io)
    (timer : t.tsTimer = s.tsTimer) (n : t.tsThreadNum = s.tsThreadNum) : t.Deleting l fd := by
  simp only [Deleting, io, timer, n]
  exact h

/-- A thread that moves keeps on deleting what it was, or had nothing to delete. -/
theorem Deleting.setIo {l₀ l : Nat} {fd : Int} {pc₀ pc : IoPc} (h : s.Deleting l fd)
    (at_ : s.io l₀ = pc₀) (hpc : pc₀.deletes l₀ l fd = true → pc.deletes l₀ l fd = true) :
    (s.setIo l₀ pc).Deleting l fd := by
  refine h.imp_left ?_
  rintro ⟨l', hl', hdel⟩
  refine ⟨l', hl', ?_⟩
  rw [setIo_io]
  by_cases hl : l' = l₀
  · subst hl
    rw [Function.update_self]
    exact hpc (at_ ▸ hdel)
  · rwa [Function.update_of_ne hl]

/-- A node that moves keeps on deleting what it was, or had nothing to delete. -/
theorem Deleting.setStage {k l : Nat} {fd : Int} {tn : TimerNode Nat ClosePc}
    {stage : TimerStage ClosePc} (h : s.Deleting l fd) (node : s.tsTimer.nodes k = some tn)
    (hst : tn.deletes l fd = true → TimerNode.deletes l fd { tn with stage := stage } = true) :
    (s.setStage k stage).Deleting l fd := by
  refine h.imp_right ?_
  rintro ⟨k', hk', hdel⟩
  refine ⟨k', hk', ?_⟩
  rw [setStage_tsTimer, TimerState.nodes_setStage]
  by_cases hk : k' = k
  · rw [if_pos hk, node]
    rw [hk, node] at hdel
    exact hst hdel
  · rwa [if_neg hk]

/-- A move of a thread that was deleting nothing. -/
theorem IoMove.deletes {l₀ l : Nat} {fd : Int} {pc pc' : IoPc} (h : IoMove s l₀ a pc pc') :
    pc.deletes l₀ l fd = false := by
  cases h <;> rfl

/-- Statements of `add_new_tcp_conn` delete nothing and stop no deletion. -/
theorem Deleting.addStmt {l : Nat} {fd : Int} (h : s.Deleting l fd) (c : Nat) (p : AddPc) :
    (s.addStmt c p).Deleting l fd := by
  cases p with
  | runAfter =>
    refine h.imp_right ?_
    rintro ⟨k, hk, hdel⟩
    refine ⟨k, Nat.lt_succ_of_lt hk, ?_⟩
    change ((s.tsTimer.runAfter c).nodes k).any _ = true
    rwa [TimerState.nodes_runAfter, if_neg (by omega)]
  | setTimerId id => exact h
  | emplaceBack => exact h

/-- Statements of `do_close` stop no deletion of another thread. -/
theorem Deleting.closeStmt {l : Nat} {fd : Int} (h : s.Deleting l fd) (c : Nat) (p : ClosePc) :
    (s.closeStmt c p).Deleting l fd :=
  h.congr (closeStmt_io s c p) (closeStmt_tsTimer s c p) (closeStmt_tsThreadNum s c p)

/-- What is being deleted still is after a step, if the kernel still watches it. -/
theorem Step.deleting (hstep : Step s a t) {l : Nat} {fd : Int} (h : s.Deleting l fd)
    (hw : t.Watched l fd) : t.Deleting l fd := by
  cases hstep with
  | acceptAdd ok c p at_ => exact h.addStmt c p
  | io l₀ a pc pc' at_ move => exact h.setIo at_ fun hold ↦ by simp [move.deletes] at hold
  | cancel l₀ c id batch at_ =>
    exact Deleting.setIo (s := { s with tsTimer := s.tsTimer.cancel id }) h at_
      Bool.false_ne_true.elim
  | messageAdd l₀ c p batch at_ =>
    exact (h.addStmt c p).setIo ((congrFun (addStmt_io s c p) l₀).trans at_) Bool.false_ne_true.elim
  | send l₀ c d len batch at_ known =>
    refine (h.congr ?_ ?_ ?_).setIo at_ Bool.false_ne_true.elim <;> rfl
  | sendCtl l₀ ok c l' op fd' ev batch at_ =>
    refine (h.congr ?_ ?_ ?_).setIo at_ Bool.false_ne_true.elim <;> rfl
  | writeDel l₀ c op ev batch at_ drained call =>
    refine (h.congr ?_ ?_ ?_).setIo at_ Bool.false_ne_true.elim <;> rfl
  | writeCtl l₀ ok c l' op fd' ev batch at_ =>
    refine (h.congr ?_ ?_ ?_).setIo at_ fun hold ↦ ?_
    · rfl
    · rfl
    · rfl
    · -- the call takes the descriptor out of the kernel's set
      simp only [IoPc.deletes, Bool.and_eq_true, decide_eq_true_eq] at hold
      obtain ⟨⟨rfl, rfl⟩, rfl⟩ := hold
      simp [Watched, epollDelEventCtl, interest_epollDelCtl] at hw
  | hupMap l₀ fd' batch at_ =>
    refine (h.congr ?_ ?_ ?_).setIo at_ Bool.false_ne_true.elim <;> rfl
  | hupCtl l₀ ok fd' batch at_ =>
    refine (h.congr ?_ ?_ ?_).setIo at_ fun hold ↦ ?_
    · rfl
    · rfl
    · rfl
    · simp only [IoPc.deletes, Bool.and_eq_true, decide_eq_true_eq] at hold
      obtain ⟨rfl, rfl⟩ := hold
      simp [Watched, interest_epollDelCtl] at hw
  | close l₀ c p batch at_ body =>
    refine (h.closeStmt c p).setIo ((congrFun (closeStmt_io s c p) l₀).trans at_) fun hold ↦ ?_
    have := (watched_closeStmt c p hw).2
    simp [IoPc.deletes, this] at hold
  | userCloseStmt l₀ c d p batch at_ body =>
    refine (h.closeStmt d p).setIo ((congrFun (closeStmt_io s d p) l₀).trans at_) fun hold ↦ ?_
    have := (watched_closeStmt d p hw).2
    simp [IoPc.deletes, this] at hold
  | timer k tn a stage node move =>
    refine h.setStage node fun hold ↦ ?_
    cases move <;> simp_all [TimerNode.deletes, ClosePc.deletes]
  | timerClose k tn p node at_ body =>
    have node' : (s.closeStmt tn.job p).tsTimer.nodes k = some tn := by
      rw [closeStmt_tsTimer]; exact node
    refine (h.closeStmt tn.job p).setStage node' fun hold ↦ ?_
    have := (watched_closeStmt tn.job p hw).2
    simp [TimerNode.deletes, at_, this] at hold
  | _ => exact h

/-- A move adds nothing to the batch, unless `epoll_wait` returns one. -/
theorem IoMove.batch {l : Nat} {pc pc' : IoPc} (h : IoMove s l a pc pc') {e : Int × Mask}
    (he : e ∈ pc'.batch) :
    e ∈ pc.batch ∨ ∃ batch, waits a = some (l, batch) ∧ e ∈ batch ∧ s.Watched l e.1 := by
  cases h with
  | wait batch thread ready =>
    refine Or.inr ⟨batch, rfl, he, ?_⟩
    have := ready.2.2 e he
    rw [Watched, Option.isSome_iff_ne_none]
    intro hnone
    rw [hnone] at this
    cases this
  | batchEnd => cases he
  | skip e' batch => exact Or.inl (List.mem_cons_of_mem _ he)
  | hup fd events batch => exact Or.inl (List.mem_cons_of_mem _ he)
  | read fd events batch c entry found call => exact Or.inl (List.mem_cons_of_mem _ he)
  | write fd events batch c entry found call => exact Or.inl (List.mem_cons_of_mem _ he)
  | _ => exact Or.inl he

/-- A step adds nothing to a batch, unless `epoll_wait` returns one. -/
theorem Step.batch (hstep : Step s a t) {l : Nat} {e : Int × Mask} (he : e ∈ (t.io l).batch) :
    e ∈ (s.io l).batch ∨ ∃ batch, waits a = some (l, batch) ∧ e ∈ batch ∧ s.Watched l e.1 := by
  have moved {u : Server} {l₀ : Nat} {pc pc' : IoPc} (he : e ∈ ((u.setIo l₀ pc').io l).batch)
      (io : u.io = s.io) (at_ : s.io l₀ = pc) (same : pc'.batch = pc.batch) :
      e ∈ (s.io l).batch :=
    io_of_setIo (P := fun pc ↦ e ∈ pc.batch) he io at_ fun h ↦ same ▸ h
  cases hstep with
  | acceptAdd ok c p at_ =>
    rw [setAcceptor_io, addStmt_io] at he
    exact Or.inl he
  | io l₀ a pc pc' at_ move =>
    rw [setIo_io] at he
    by_cases hl : l = l₀
    · subst hl
      rw [Function.update_self] at he
      rw [at_]
      exact move.batch he
    · rw [Function.update_of_ne hl] at he
      exact Or.inl he
  | cancel l₀ c id batch at_ => exact Or.inl (moved he rfl at_ rfl)
  | messageAdd l₀ c p batch at_ =>
    exact Or.inl (moved he (addStmt_io s c p) at_ rfl)
  | send l₀ c d len batch at_ known => exact Or.inl (moved he rfl at_ rfl)
  | sendCtl l₀ ok c l' op fd' ev batch at_ => exact Or.inl (moved he rfl at_ rfl)
  | writeDel l₀ c op ev batch at_ drained call =>
    exact Or.inl (moved he rfl at_ rfl)
  | writeCtl l₀ ok c l' op fd' ev batch at_ => exact Or.inl (moved he rfl at_ rfl)
  | hupMap l₀ fd' batch at_ => exact Or.inl (moved he rfl at_ rfl)
  | hupCtl l₀ ok fd' batch at_ => exact Or.inl (moved he rfl at_ rfl)
  | close l₀ c p batch at_ body =>
    exact Or.inl (moved he (closeStmt_io s c p) at_ rfl)
  | userCloseStmt l₀ c d p batch at_ body =>
    exact Or.inl (moved he (closeStmt_io s d p) at_ rfl)
  | timerClose k tn p node at_ body =>
    rw [setStage_io, closeStmt_io] at he
    exact Or.inl he
  | _ => exact Or.inl he

/-- The assertion of `execute_cbs` fails only for an event that finds no entry. -/
theorem Step.aborted (hstep : Step s a t) (alive : s.aborted = false)
    (found : ∀ l, ∀ e ∈ (s.io l).batch, s.Key l e.1) : t.aborted = false := by
  cases hstep with
  | abort l fd events batch at_ missing =>
    have hkey := found l (fd, events) (by rw [at_]; exact List.mem_cons_self)
    rw [Key, missing] at hkey
    cases hkey
  | acceptAdd ok c p at_ => cases p <;> exact alive
  | messageAdd l c p batch at_ => cases p <;> exact alive
  | close l c p batch at_ body => cases p <;> exact alive
  | userCloseStmt l c d p batch at_ body => cases p <;> exact alive
  | timerClose k tn p node at_ body => cases p <;> exact alive
  | _ => exact alive

/-! ### The invariant -/

/-- An admitted step keeps the invariant. -/
theorem Found.step (h : s.Found) (hok : s.SparesBatch a) (hstep : Step s a t) : t.Found := by
  have threads := h.threads.step hstep
  have numbered := hstep.numbered h.numbered
  have hkey {l : Nat} {fd : Int} (hk : s.Key l fd) := hstep.key threads numbered hk
  refine ⟨threads, numbered, hstep.aborted h.alive h.batch, ?_, ?_, ?_⟩
  · intro l e he
    rcases hstep.batch he with hold | ⟨batch, hwait, hmem, hwatched⟩
    · rcases hkey (h.batch l e hold) with hk | ⟨hera, -⟩
      · exact hk
      · exact absurd (List.mem_map_of_mem hold) (hok.spares _ hera).1
    · rcases h.watched l e.1 hwatched with hk | hdel
      · rcases hkey hk with hk | ⟨hera, -⟩
        · exact hk
        · cases a <;> simp [waits, erases, closeStatement] at hwait hera
      · exact absurd hdel (hok.settled _ hwait e hmem)
  · intro l fd hw
    rcases hstep.watched h.threads hw with hold | hadd
    · rcases h.watched l fd hold with hk | hdel
      · exact (hkey hk).imp_right And.right
      · exact Or.inr (hstep.deleting hdel hw)
    · exact (hkey (h.adding l fd hadd)).imp_right And.right
  · intro l fd hadd
    rcases hstep.adding hadd with hold | hk
    · rcases hkey (h.adding l fd hold) with hk | ⟨hera, -⟩
      · exact hk
      · exact absurd hold (hok.spares _ hera).2
    · exact hk

/-- A started server watches the eventfds of its loops. -/
theorem found_init (n : Nat) (elEvfd : Nat → Int) : (init n elEvfd).Found where
  threads := noOtherThread_init n elEvfd
  numbered := TimerState.numbered_init
  alive := rfl
  batch _ e he := by cases he
  watched l fd h := by
    refine Or.inl ?_
    simp only [Watched, Key, init] at h ⊢
    split
    · next hl =>
      rw [if_pos hl] at h
      by_cases hfd : fd = elEvfd l
      · simp [epollAdd, epollAddMap, hfd]
      · simp [epollAdd, epollAddCtl, epollAddMap, epollAddOp, epollCtl, Epoll.init, hfd] at h
    · next hl =>
      rw [if_neg hl] at h
      cases h
  adding l fd h := by
    rcases h with h | ⟨l', -, h⟩ <;> cases h

/-- In every run whose steps all meet the condition, every event of a batch still finds its
descriptor in the map, and the assertion of `execute_cbs` does not fail. -/
theorem batch_events_find_descriptor {n : Nat} {elEvfd : Nat → Int}
    (h : ReachBy Server.step SparesBatch (init n elEvfd) s) :
    (∀ l, ∀ e ∈ (s.io l).batch, ((s.loops l).epEventMap e.1).isSome) ∧ s.aborted = false := by
  have hfound : s.Found := h.invariant (found_init n elEvfd) fun s a t hs hok hstep ↦
    hs.step hok (step_inversion hstep)
  exact ⟨hfound.batch, hfound.alive⟩

/-- A message, and a timeout when its batch has been looked up. -/
def timeoutAfterBatch : List ServerAction :=
  .accept 7 :: List.replicate 5 (.acceptor true) ++
    [.wait 0 [(3, EPOLLIN), (7, EPOLLIN)], .lookup 0, .lookup 0, .readData 0] ++
      List.replicate 5 (.message 0) ++ [.endMessage 0, .endMessage 0, .lookup 0] ++
        [.expire 1, .check 1, .post 1, .begin 1] ++ List.replicate 12 (.timerClose 1)

/-- A batch that is looked up before the timeout finds all its descriptors. -/
theorem early_batch_finds_descriptors :
    ∃ s, run Server.step (init 1 fun _ ↦ 3) timeoutAfterBatch = some s ∧
      (∀ l, ∀ e ∈ (io s l).batch, ((loops s l).epEventMap e.1).isSome) ∧ aborted s = false := by
  have hrun : (run Server.step (init 1 fun _ ↦ 3) timeoutAfterBatch).isSome := by decide +kernel
  obtain ⟨s, hs⟩ := Option.isSome_iff_exists.mp hrun
  exact ⟨s, hs, batch_events_find_descriptor (reachBy_of_run hs (by decide +kernel))⟩

/-- The timeout erases the map entry between `epoll_wait` and the look-up. -/
def timeoutInsideBatch : List ServerAction :=
  .accept 7 :: List.replicate 5 (.acceptor true) ++
    [.expire 0, .check 0, .post 0, .begin 0, .timerClose 0, .timerClose 0,
      .wait 0 [(7, EPOLLIN)], .timerClose 0, .lookup 0]

/-- A timeout between `epoll_wait` and the look-up makes the assertion fail. -/
theorem timeout_inside_batch_aborts :
    ¬ ∀ (n : Nat) (elEvfd : Nat → Int) (s : Server),
      Reach Server.step (init n elEvfd) s → s.aborted = false := by
  intro h
  have hrun : (run Server.step (init 1 fun _ ↦ 3) timeoutInsideBatch).isSome := by decide +kernel
  have haborted : ∀ t ∈ run Server.step (init 1 fun _ ↦ 3) timeoutInsideBatch,
      aborted t = true := by decide +kernel
  obtain ⟨s, hs⟩ := Option.isSome_iff_exists.mp hrun
  have halive := h 1 (fun _ ↦ 3) s (reach_of_run hs)
  rw [haborted s hs] at halive
  cases halive

end Server

end ConcurrentServer.Net
