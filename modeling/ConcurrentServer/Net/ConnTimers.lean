import ConcurrentServer.Net.ServerStep

/-!
# Connections, their loops and their timer ids

What every run keeps about the names in the state: every connection that a thread, a stored
callback or a timer node refers to has been accepted; a connection's callbacks are stored at,
and run by, its own loop; and, while fewer than 2³² nodes exist, a stored timer id is the id of
a node of the same connection. `src/net/tcp_conn.cpp:26–31`, `src/net/tcp_server.h:43–55`.
-/

namespace ConcurrentServer.Net
open ConcurrentServer.Base

/-- The connection that a callback belongs to. -/
def Callback.conn : Callback → Option Nat
  | .evfdRead => none
  | .doRead c | .doWrite c => some c

/-- The connection whose callback the thread is inside. -/
def IoPc.own : IoPc → Option Nat
  | .reading c _ | .message c _ _ | .writing c _ | .writeCtl c _ _ _ _ _ | .closing c _ _
  | .userClosing c _ _ _ => some c
  | .poll | .lookup _ | .hup _ _ | .hupCtl _ _ => none

/-- The connection whose `active_close` the message callback has called. -/
def IoPc.other : IoPc → Option Nat
  | .userClosing _ d _ _ => some d
  | _ => none

/-- The acceptor's thread has still to create the first timer of `c`. -/
def AcceptPc.arms (c : Nat) : AcceptPc → Bool
  | .addTask c' | .addTaskCtl c' _ _ _ _ | .addNewTcpConn c' .runAfter => c' = c
  | _ => false

/-- The entry holds the callback in one of its two slots. -/
def IoEvent.Calls {CB : Type} (entry : IoEvent CB) (cb : CB) : Prop :=
  entry.readCallback = some cb ∨ entry.writeCallback = some cb

/-- The map holds the callback somewhere. -/
def Epoll.Stores {CB : Type} (e : Epoll CB) (cb : CB) : Prop :=
  ∃ fd entry, e.epEventMap fd = some entry ∧ entry.Calls cb

/-! ### Stored callbacks -/

section Stores

variable {CB : Type} {e : Epoll CB} {cb : CB}

/-- What is called was held. -/
theorem IoEvent.calls_of_dispatch {entry : IoEvent CB} {events : Mask}
    (h : entry.dispatch events = .call cb) : entry.Calls cb := by
  unfold IoEvent.dispatch at h
  split at h
  · cases hr : entry.readCallback with
    | none => rw [hr] at h; cases h
    | some cb' => rw [hr] at h; cases h; exact Or.inl hr
  · split at h
    · cases hw : entry.writeCallback with
      | none => rw [hw] at h; cases h
      | some cb' => rw [hw] at h; cases h; exact Or.inr hw
    · split at h
      · split at h
        · next hr => cases h; exact Or.inl hr
        · next hw => cases h; exact Or.inr hw
        · cases h
      · cases h

/-- `epoll_add` stores its own callback and none else. -/
theorem Epoll.Stores.of_epollAddMap {fd : Int} {event : Mask} {cb' : Option CB}
    (h : (epollAddMap e fd event cb').Stores cb) : e.Stores cb ∨ cb' = some cb := by
  obtain ⟨fd', entry, hmap, hcalls⟩ := h
  by_cases hfd : fd' = fd
  · subst hfd
    simp only [epollAddMap, Function.update_self, Option.some.injEq] at hmap
    subst hmap
    -- both slots are the old ones but for the one that is set
    have hset : ((e.epEventMap fd').getD .fresh).Calls cb ∨ cb' = some cb := by
      unfold IoEvent.setCallback at hcalls
      split at hcalls
      · rcases hcalls with hr | hw
        · exact Or.inr hr
        · exact Or.inl (Or.inr hw)
      · split at hcalls
        · rcases hcalls with hr | hw
          · exact Or.inl (Or.inl hr)
          · exact Or.inr hw
        · exact Or.inl hcalls
    refine hset.imp_left fun hold ↦ ?_
    cases hm : e.epEventMap fd' with
    | none =>
      rw [hm] at hold
      rcases hold with hr | hw <;> cases ‹_›
    | some old => exact ⟨fd', old, hm, by simpa [hm] using hold⟩
  · exact Or.inl ⟨fd', entry, by simpa [epollAddMap, hfd] using hmap, hcalls⟩

/-- `epoll_del(fd)` stores nothing. -/
theorem Epoll.Stores.of_epollDelMap {fd : Int} (h : (epollDelMap e fd).Stores cb) :
    e.Stores cb := by
  obtain ⟨fd', entry, hmap, hcalls⟩ := h
  by_cases hfd : fd' = fd
  · simp [epollDelMap, hfd] at hmap
  · exact ⟨fd', entry, by simpa [epollDelMap, hfd] using hmap, hcalls⟩

/-- `epoll_del(fd, event)` stores nothing. -/
theorem Epoll.Stores.of_epollDelEventMap {fd : Int} {event : Mask}
    (h : (epollDelEventMap e fd event).1.Stores cb) : e.Stores cb := by
  unfold epollDelEventMap at h
  cases hm : e.epEventMap fd with
  | none => rwa [hm] at h
  | some ret =>
    rw [hm] at h
    have hmasked {m : Mask} (h : Epoll.Stores { e with
        epEventMap := Function.update e.epEventMap fd (some { ret with event := m }) } cb) :
        e.Stores cb := by
      obtain ⟨fd', entry, hmap, hcalls⟩ := h
      by_cases hfd : fd' = fd
      · simp only [hfd, Function.update_self, Option.some.injEq] at hmap
        subst hmap
        exact ⟨fd, ret, hm, hcalls⟩
      · exact ⟨fd', entry, by simpa [hfd] using hmap, hcalls⟩
    dsimp only at h
    split at h
    · exact hmasked h.of_epollDelMap
    · exact hmasked h

/-- What is stored is read off the map. -/
theorem Epoll.Stores.congr {e' : Epoll CB} (h : e'.Stores cb)
    (map : e'.epEventMap = e.epEventMap) : e.Stores cb := by
  obtain ⟨fd, entry, hmap, hcalls⟩ := h
  exact ⟨fd, entry, map ▸ hmap, hcalls⟩

end Stores

namespace Server

variable {s t : Server} {a : ServerAction}

/-- Changing one epoller so that it stores nothing new. -/
theorem stores_of_modLoop {l l' : Nat} {f : Epoll Callback → Epoll Callback} {cb : Callback}
    (h : ((s.modLoop l' f).loops l).Stores cb)
    (hf : (f (s.loops l')).Stores cb → (s.loops l').Stores cb) : (s.loops l).Stores cb := by
  rw [modLoop_loops] at h
  by_cases hl : l = l'
  · subst hl
    rw [Function.update_self] at h
    exact hf h
  · rwa [Function.update_of_ne hl] at h

/-- `add_to_poller` of `c` stores at the loop of `c`. -/
theorem stores_of_addToPoller {c l : Nat} {event : Mask} {cb cb' : Callback}
    (h : ((s.addToPoller c event cb').loops l).Stores cb) :
    (s.loops l).Stores cb ∨ (l = (s.conns c).tcLoop ∧ cb' = cb) := by
  simp only [addToPoller, modLoop_loops] at h
  by_cases hl : l = (s.conns c).tcLoop
  · subst hl
    rw [Function.update_self] at h
    exact h.of_epollAddMap.imp_right fun he ↦ ⟨rfl, Option.some.inj he⟩
  · rw [Function.update_of_ne hl] at h
    exact Or.inl h

/-- The pending call of `add_to_poller` stores nothing. -/
theorem stores_of_addToPollerCtl {l l' : Nat} {op : CtlOp} {fd : Int} {ev : Mask} {ok : Bool}
    {cb : Callback} (h : ((s.addToPollerCtl l' op fd ev ok).loops l).Stores cb) :
    (s.loops l).Stores cb :=
  stores_of_modLoop h fun h ↦ h.congr (epEventMap_epollAddCtl ..)

/-- Statements of `do_close` store nothing. -/
theorem stores_of_closeStmt {c l : Nat} {p : ClosePc} {cb : Callback}
    (h : ((s.closeStmt c p).loops l).Stores cb) : (s.loops l).Stores cb := by
  cases p with
  | delMap fd =>
    simp only [closeStmt] at h
    exact stores_of_modLoop h fun h ↦ h.of_epollDelMap
  | delCtl l' fd =>
    simp only [closeStmt] at h
    exact stores_of_modLoop h fun h ↦ h.congr rfl
  | closeFd fd => exact h.congr rfl
  | _ => exact h

/-- A step stores callbacks of a connection that is being accepted or is known, at its loop. -/
theorem Step.stores (hstep : Step s a t) {l : Nat} {cb : Callback}
    (h : (t.loops l).Stores cb) : (s.loops l).Stores cb ∨
      ∃ c, cb.conn = some c ∧ (s.acceptor.conn = some c ∨ c < s.connCount) ∧
        l = (s.conns c).tcLoop := by
  cases hstep with
  | addTask ok c at_ =>
    refine (stores_of_addToPoller h).imp_right ?_
    rintro ⟨hl, rfl⟩
    exact ⟨c, rfl, Or.inl (by rw [at_]; rfl), hl⟩
  | addTaskCtl ok c l' op fd ev at_ => exact Or.inl (stores_of_addToPollerCtl h)
  | acceptAdd ok c p at_ =>
    rw [setAcceptor_loops, addStmt_loops] at h
    exact Or.inl h
  | messageAdd l' c p batch at_ =>
    rw [setIo_loops, addStmt_loops] at h
    exact Or.inl h
  | send l' c d len batch at_ known =>
    refine (stores_of_addToPoller (s := s.modConn d fun tc ↦
      { tc with tcObufLength := tc.tcObufLength + len }) h).imp_right ?_
    rintro ⟨hl, rfl⟩
    exact ⟨d, rfl, Or.inr known, by simpa using hl⟩
  | sendCtl l' ok c l'' op fd ev batch at_ => exact Or.inl (stores_of_addToPollerCtl h)
  | writeDel l' c op ev batch at_ drained call =>
    rw [setIo_loops] at h
    exact Or.inl (stores_of_modLoop h fun h ↦ h.of_epollDelEventMap)
  | writeCtl l' ok c l'' op fd ev batch at_ =>
    rw [setIo_loops] at h
    exact Or.inl (stores_of_modLoop h fun h ↦ h.congr (epEventMap_epollDelEventCtl ..))
  | hupMap l' fd batch at_ =>
    rw [setIo_loops] at h
    exact Or.inl (stores_of_modLoop h fun h ↦ h.of_epollDelMap)
  | hupCtl l' ok fd batch at_ =>
    rw [setIo_loops] at h
    exact Or.inl (stores_of_modLoop h fun h ↦ h.congr rfl)
  | close l' c p batch at_ body => exact Or.inl (stores_of_closeStmt h)
  | userCloseStmt l' c d p batch at_ body => exact Or.inl (stores_of_closeStmt h)
  | timerClose k tn p node at_ body => exact Or.inl (stores_of_closeStmt h)
  | _ => exact Or.inl h

/-! ### Names in the state -/

/-- Connections are only ever added. -/
theorem Step.connCount_le (hstep : Step s a t) : s.connCount ≤ t.connCount := by
  cases hstep with
  | accept fd idle fresh started => exact Nat.le_succ _
  | acceptAdd ok c p at_ => rw [setAcceptor_connCount, addStmt_connCount]
  | messageAdd l c p batch at_ => rw [setIo_connCount, addStmt_connCount]
  | close l c p batch at_ body => rw [setIo_connCount, closeStmt_connCount]
  | userCloseStmt l c d p batch at_ body => rw [setIo_connCount, closeStmt_connCount]
  | timerClose k tn p node at_ body => rw [setStage_connCount, closeStmt_connCount]
  | _ => exact Nat.le_refl _

private theorem tcLoop_modConn {d : Nat} {f : Conn → Conn}
    (hf : (f (s.conns d)).tcLoop = (s.conns d).tcLoop) (c : Nat) :
    ((s.modConn d f).conns c).tcLoop = (s.conns c).tcLoop := by
  rw [modConn_conns]
  by_cases hc : c = d
  · rw [hc, Function.update_self, hf]
  · rw [Function.update_of_ne hc]

private theorem tcLoop_addStmt (d : Nat) (p : AddPc) (c : Nat) :
    ((s.addStmt d p).conns c).tcLoop = (s.conns c).tcLoop := by
  cases p with
  | setTimerId id => exact tcLoop_modConn (f := fun tc ↦ { tc with tcTimerId := id }) rfl c
  | _ => rfl

private theorem tcLoop_closeStmt (d : Nat) (p : ClosePc) (c : Nat) :
    ((s.closeStmt d p).conns c).tcLoop = (s.conns c).tcLoop := by
  cases p with
  | enter => exact tcLoop_modConn (f := fun tc ↦ { tc with closes := tc.closes + 1 }) rfl c
  | clearBufs => exact tcLoop_modConn (f := fun tc ↦ { tc with tcObufLength := 0 }) rfl c
  | dropFd fd => exact tcLoop_modConn (f := fun tc ↦ { tc with tcFd := -1 }) rfl c
  | doClean p => rw [conns_doClean]
  | _ => rfl

/-- A connection keeps its loop. -/
theorem Step.tcLoop (hstep : Step s a t) {c : Nat} (hc : c < s.connCount) :
    (t.conns c).tcLoop = (s.conns c).tcLoop := by
  cases hstep with
  | accept fd idle fresh started => rw [acceptConn_conns, Function.update_of_ne (by omega)]
  | acceptAdd ok d p at_ => exact tcLoop_addStmt d p c
  | messageAdd l d p batch at_ => exact tcLoop_addStmt d p c
  | send l e d len batch at_ known =>
    exact tcLoop_modConn (f := fun tc ↦ { tc with tcObufLength := tc.tcObufLength + len }) rfl c
  | obuf a d n => exact tcLoop_modConn (f := fun tc ↦ { tc with tcObufLength := n }) rfl c
  | close l d p batch at_ body => exact tcLoop_closeStmt d p c
  | userCloseStmt l e d p batch at_ body => exact tcLoop_closeStmt d p c
  | timerClose k tn p node at_ body => exact tcLoop_closeStmt tn.job p c
  | _ => rfl

/-- The acceptor's thread keeps its connection or takes the newest. -/
theorem Step.acceptor_conn (hstep : Step s a t) {c : Nat} (h : t.acceptor.conn = some c) :
    s.acceptor.conn = some c ∨ (c = s.connCount ∧ t.connCount = s.connCount + 1) := by
  cases hstep.acceptorMove with
  | stay same => exact Or.inl (by rwa [← same])
  | accept idle after count =>
    rw [after] at h
    exact Or.inr ⟨(Option.some.inj h).symm, count⟩
  | addTask d l op fd ev at_ after =>
    rw [after] at h
    exact Or.inl (by rw [at_]; exact h)
  | addTaskCtl d l op fd ev at_ after =>
    rw [after] at h
    exact Or.inl (by rw [at_]; exact h)
  | acceptAdd d p at_ after timer =>
    rw [after] at h
    refine Or.inl ?_
    rw [at_]
    cases p with
    | emplaceBack => cases h
    | _ => exact h

/-- A move enters a callback that its loop stores, or stays with its connection. -/
theorem IoMove.own {l : Nat} {pc pc' : IoPc} (hm : IoMove s l a pc pc') (at_ : s.io l = pc)
    {c : Nat} (h : pc'.own = some c) :
    pc.own = some c ∨ s.callsInto a = some c ∧
      ∃ cb, (s.loops l).Stores cb ∧ cb.conn = some c := by
  cases hm with
  | read fd events batch c' entry found call =>
    refine Or.inr ⟨?_, _, ⟨fd, entry, found, entry.calls_of_dispatch call⟩, h⟩
    simp [callsInto, at_, found, call, Option.some.inj h]
  | write fd events batch c' entry found call =>
    refine Or.inr ⟨?_, _, ⟨fd, entry, found, entry.calls_of_dispatch call⟩, h⟩
    simp [callsInto, at_, found, call, Option.some.inj h]
  | wait batch thread ready => cases h
  | batchEnd => cases h
  | skip e batch => cases h
  | hup fd events batch => cases h
  | endRead c' batch => cases h
  | writeRest c' batch => cases h
  | closed c' batch => cases h
  | _ => exact Or.inl h

/-- A thread stays inside a callback, or enters one that its loop stores. -/
theorem Step.own (hstep : Step s a t) {l c : Nat} (h : (t.io l).own = some c) :
    (s.io l).own = some c ∨ s.callsInto a = some c ∧
      ∃ cb, (s.loops l).Stores cb ∧ cb.conn = some c := by
  have moved {u : Server} {l₀ : Nat} {pc pc' : IoPc}
      (h : ((u.setIo l₀ pc').io l).own = some c) := io_of_setIo (s := s) (p := pc)
        (P := fun pc ↦ pc.own = some c) h
  cases hstep with
  | acceptAdd ok d p at_ =>
    rw [setAcceptor_io, addStmt_io] at h
    exact Or.inl h
  | io l₀ a pc pc' at_ move =>
    rw [setIo_io] at h
    by_cases hl : l = l₀
    · subst hl
      rw [Function.update_self] at h
      rw [at_]
      exact move.own at_ h
    · rw [Function.update_of_ne hl] at h
      exact Or.inl h
  | cancel l₀ d id batch at_ => exact Or.inl (moved h rfl at_ fun h ↦ h)
  | messageAdd l₀ d p batch at_ => exact Or.inl (moved h (addStmt_io s d p) at_ id)
  | send l₀ e d len batch at_ known => exact Or.inl (moved h rfl at_ id)
  | sendCtl l₀ ok e l' op fd ev batch at_ => exact Or.inl (moved h rfl at_ id)
  | writeDel l₀ d op ev batch at_ drained call => exact Or.inl (moved h rfl at_ id)
  | writeCtl l₀ ok d l' op fd ev batch at_ => exact Or.inl (moved h rfl at_ nofun)
  | hupMap l₀ fd batch at_ => exact Or.inl (moved h rfl at_ nofun)
  | hupCtl l₀ ok fd batch at_ => exact Or.inl (moved h rfl at_ nofun)
  | close l₀ d p batch at_ body => exact Or.inl (moved h (closeStmt_io s d p) at_ id)
  | userCloseStmt l₀ e d p batch at_ body => exact Or.inl (moved h (closeStmt_io s d p) at_ id)
  | timerClose k tn p node at_ body =>
    rw [setStage_io, closeStmt_io] at h
    exact Or.inl h
  | _ => exact Or.inl h

/-- A thread stays inside an `active_close`, or calls one. -/
theorem Step.other (hstep : Step s a t) {l d : Nat} (h : (t.io l).other = some d) :
    (s.io l).other = some d ∨ s.callsInto a = some d ∧ d < s.connCount := by
  have moved {u : Server} {l₀ : Nat} {pc pc' : IoPc}
      (h : ((u.setIo l₀ pc').io l).other = some d) := io_of_setIo (s := s) (p := pc)
        (P := fun pc ↦ pc.other = some d) h
  cases hstep with
  | acceptAdd ok d p at_ =>
    rw [setAcceptor_io, addStmt_io] at h
    exact Or.inl h
  | io l₀ a pc pc' at_ move =>
    cases move with
    | userClose c e batch known =>
      rw [setIo_io] at h
      by_cases hl : l = l₀
      · subst hl
        rw [Function.update_self] at h
        cases h
        exact Or.inr ⟨rfl, known⟩
      · rw [Function.update_of_ne hl] at h
        exact Or.inl h
    | _ => exact Or.inl (moved h rfl at_ nofun)
  | cancel l₀ d id batch at_ => exact Or.inl (moved h rfl at_ nofun)
  | messageAdd l₀ d p batch at_ => exact Or.inl (moved h (addStmt_io s d p) at_ nofun)
  | send l₀ e d len batch at_ known => exact Or.inl (moved h rfl at_ nofun)
  | sendCtl l₀ ok e l' op fd ev batch at_ => exact Or.inl (moved h rfl at_ nofun)
  | writeDel l₀ d op ev batch at_ drained call => exact Or.inl (moved h rfl at_ nofun)
  | writeCtl l₀ ok d l' op fd ev batch at_ => exact Or.inl (moved h rfl at_ nofun)
  | hupMap l₀ fd batch at_ => exact Or.inl (moved h rfl at_ nofun)
  | hupCtl l₀ ok fd batch at_ => exact Or.inl (moved h rfl at_ nofun)
  | close l₀ d p batch at_ body => exact Or.inl (moved h (closeStmt_io s d p) at_ nofun)
  | userCloseStmt l₀ e d p batch at_ body => exact Or.inl (moved h (closeStmt_io s d p) at_ id)
  | timerClose k tn p node at_ body =>
    rw [setStage_io, closeStmt_io] at h
    exact Or.inl h
  | _ => exact Or.inl h

/-- A node was there before the step, or is a new one of the connection that is being added by
the acceptor's thread or by a message. -/
theorem Step.node (hstep : Step s a t) {k : Nat} {tn : TimerNode Nat ClosePc}
    (h : t.tsTimer.nodes k = some tn) :
    (∃ tn₀, s.tsTimer.nodes k = some tn₀ ∧ tn.tnId = tn₀.tnId ∧ tn.job = tn₀.job) ∨
      s.acceptor = .addNewTcpConn tn.job .runAfter ∨
        ∃ l batch, s.io l = .message tn.job (.addNewTcpConn .runAfter) batch := by
  cases hstep with
  | acceptAdd ok d p at_ =>
    cases p with
    | runAfter =>
      change (s.tsTimer.runAfter d).nodes k = some tn at h
      rw [TimerState.nodes_runAfter] at h
      split at h
      · obtain rfl := Option.some.inj h
        exact Or.inr (Or.inl at_)
      · exact Or.inl ⟨tn, h, rfl, rfl⟩
    | setTimerId id => exact Or.inl ⟨tn, h, rfl, rfl⟩
    | emplaceBack => exact Or.inl ⟨tn, h, rfl, rfl⟩
  | messageAdd l d p batch at_ =>
    cases p with
    | runAfter =>
      change (s.tsTimer.runAfter d).nodes k = some tn at h
      rw [TimerState.nodes_runAfter] at h
      split at h
      · obtain rfl := Option.some.inj h
        exact Or.inr (Or.inr ⟨l, batch, at_⟩)
      · exact Or.inl ⟨tn, h, rfl, rfl⟩
    | setTimerId id => exact Or.inl ⟨tn, h, rfl, rfl⟩
    | emplaceBack => exact Or.inl ⟨tn, h, rfl, rfl⟩
  | close l c p batch at_ body =>
    rw [setIo_tsTimer, closeStmt_tsTimer] at h
    exact Or.inl ⟨tn, h, rfl, rfl⟩
  | userCloseStmt l c d p batch at_ body =>
    rw [setIo_tsTimer, closeStmt_tsTimer] at h
    exact Or.inl ⟨tn, h, rfl, rfl⟩
  | timer k' tn' a stage node move =>
    obtain ⟨tn₀, h₀, hid, hj, -⟩ := TimerState.node_of_setStage h
    exact Or.inl ⟨tn₀, h₀, hid, hj⟩
  | timerClose k' tn' p node at_ body =>
    rw [setStage_tsTimer, closeStmt_tsTimer] at h
    obtain ⟨tn₀, h₀, hid, hj, -⟩ := TimerState.node_of_setStage h
    exact Or.inl ⟨tn₀, h₀, hid, hj⟩
  | _ => exact Or.inl ⟨tn, h, rfl, rfl⟩

/-- Every connection that the state names has been accepted, and its callbacks are stored at
and run by its own loop. -/
structure Known (s : Server) : Prop where
  acceptor : ∀ c, s.acceptor.conn = some c → c < s.connCount
  stored : ∀ l cb c, (s.loops l).Stores cb → cb.conn = some c →
    c < s.connCount ∧ (s.conns c).tcLoop = l
  own : ∀ l c, (s.io l).own = some c → c < s.connCount ∧ (s.conns c).tcLoop = l
  other : ∀ l d, (s.io l).other = some d → d < s.connCount
  node : ∀ k tn, s.tsTimer.nodes k = some tn → tn.job < s.connCount

/-- A started server names no connection. -/
theorem known_init (n : Nat) (elEvfd : Nat → Int) : (init n elEvfd).Known where
  acceptor _ h := nomatch h
  stored l cb c h hcb := by
    simp only [init] at h
    split at h
    · obtain ⟨fd, entry, hmap, hcalls⟩ := h
      rw [epollAdd, epEventMap_epollAddCtl] at hmap
      rcases Epoll.Stores.of_epollAddMap ⟨fd, entry, hmap, hcalls⟩ with ⟨fd', entry', hm, -⟩ | he
      · cases hm
      · cases he
        cases hcb
    · obtain ⟨fd, entry, hmap, -⟩ := h
      cases hmap
  own _ _ h := nomatch h
  other _ _ h := nomatch h
  node _ _ h := nomatch h

/-- Every step keeps the names known. -/
theorem Known.step (h : s.Known) (hstep : Step s a t) : t.Known := by
  have hle := hstep.connCount_le
  refine ⟨fun c hc ↦ ?_, fun l cb c hs hcb ↦ ?_, fun l c hc ↦ ?_, fun l d hd ↦ ?_, ?_⟩
  · rcases hstep.acceptor_conn hc with hold | ⟨rfl, hn⟩
    · exact Nat.lt_of_lt_of_le (h.acceptor c hold) hle
    · omega
  · have hlt : c < s.connCount ∧ (s.conns c).tcLoop = l := by
      rcases hstep.stores hs with hold | ⟨c', hc', hknown, hl⟩
      · exact h.stored l cb c hold hcb
      · obtain rfl : c' = c := Option.some.inj (hc'.symm.trans hcb)
        exact ⟨hknown.elim (h.acceptor c') (fun hlt ↦ hlt), hl.symm⟩
    exact ⟨Nat.lt_of_lt_of_le hlt.1 hle, (hstep.tcLoop hlt.1).trans hlt.2⟩
  · have hlt : c < s.connCount ∧ (s.conns c).tcLoop = l := by
      rcases hstep.own hc with hold | ⟨-, cb, hs, hcb⟩
      · exact h.own l c hold
      · exact h.stored l cb c hs hcb
    exact ⟨Nat.lt_of_lt_of_le hlt.1 hle, (hstep.tcLoop hlt.1).trans hlt.2⟩
  · rcases hstep.other hd with hold | ⟨-, hlt⟩
    · exact Nat.lt_of_lt_of_le (h.other l d hold) hle
    · exact Nat.lt_of_lt_of_le hlt hle
  · intro k tn hk
    refine Nat.lt_of_lt_of_le ?_ hle
    rcases hstep.node hk with ⟨tn₀, h₀, -, hj⟩ | hacc | ⟨l, batch, hio⟩
    · rw [hj]; exact h.node k tn₀ h₀
    · exact h.acceptor tn.job (by rw [hacc]; rfl)
    · exact (h.own l tn.job (by rw [hio]; rfl)).1

/-! ### Timer ids -/

/-- While the timer has made fewer than 2³² nodes, every id that is stored, or on its way to be
stored or cancelled, is −1 or the id of a node of the same connection. -/
structure TimerIds (s : Server) : Prop where
  numbered : s.tsTimer.Numbered
  bound : s.tsTimer.tmCount ≤ 2 ^ 32 - 1
  conn : ∀ c, (s.conns c).tcTimerId = -1 ∨ s.tsTimer.IdOf c (s.conns c).tcTimerId
  acceptor : ∀ c id, s.acceptor = .addNewTcpConn c (.setTimerId id) → s.tsTimer.IdOf c id
  message : ∀ l c id batch, s.io l = .message c (.addNewTcpConn (.setTimerId id)) batch →
    s.tsTimer.IdOf c id
  cancel : ∀ l c id batch, s.io l = .message c (.cancel id) batch →
    id = -1 ∨ s.tsTimer.IdOf c id

/-- A started server has no nodes. -/
theorem timerIds_init (n : Nat) (elEvfd : Nat → Int) : (init n elEvfd).TimerIds where
  numbered := TimerState.numbered_init
  bound := Nat.zero_le _
  conn _ := Or.inl rfl
  acceptor _ _ h := nomatch h
  message _ _ _ _ h := nomatch h
  cancel _ _ _ _ h := nomatch h

/-- An id stays an id of the connection. -/
theorem Step.idOf (hstep : Step s a t) (numbered : s.tsTimer.Numbered) {c : Nat} {id : Int}
    (h : s.tsTimer.IdOf c id) : t.tsTimer.IdOf c id := by
  obtain ⟨k, tn, hk, hj, hid⟩ := h
  have added (d : Nat) : (s.tsTimer.runAfter d).IdOf c id := by
    refine ⟨k, tn, ?_, hj, hid⟩
    have hlt := (numbered k tn hk).1
    rw [TimerState.nodes_runAfter, if_neg (by omega), hk]
  have staged (k' : Nat) (stage : TimerStage ClosePc) :
      (s.tsTimer.setStage k' stage).IdOf c id := by
    by_cases hkk : k = k'
    · subst hkk
      refine ⟨k, { tn with stage := stage }, ?_, hj, hid⟩
      rw [TimerState.nodes_setStage, if_pos rfl, hk, Option.map_some]
    · exact ⟨k, tn, by rw [TimerState.nodes_setStage, if_neg hkk, hk], hj, hid⟩
  cases hstep with
  | acceptAdd ok d p at_ =>
    cases p with
    | runAfter => exact added d
    | _ => exact ⟨k, tn, hk, hj, hid⟩
  | messageAdd l d p batch at_ =>
    cases p with
    | runAfter => exact added d
    | _ => exact ⟨k, tn, hk, hj, hid⟩
  | close l d p batch at_ body =>
    rw [setIo_tsTimer, closeStmt_tsTimer]
    exact ⟨k, tn, hk, hj, hid⟩
  | userCloseStmt l e d p batch at_ body =>
    rw [setIo_tsTimer, closeStmt_tsTimer]
    exact ⟨k, tn, hk, hj, hid⟩
  | timer k' tn' a stage node move => exact staged k' stage
  | timerClose k' tn' p node at_ body =>
    rw [setStage_tsTimer, closeStmt_tsTimer]
    exact staged k' _
  | _ => exact ⟨k, tn, hk, hj, hid⟩

/-- A step makes at most one node. -/
theorem Step.tmCount_le (hstep : Step s a t) : t.tsTimer.tmCount ≤ s.tsTimer.tmCount + 1 := by
  cases hstep with
  | acceptAdd ok c p at_ =>
    cases p with
    | runAfter => exact Nat.le_refl _
    | _ => exact Nat.le_succ _
  | messageAdd l c p batch at_ =>
    cases p with
    | runAfter => exact Nat.le_refl _
    | _ => exact Nat.le_succ _
  | close l c p batch at_ body =>
    rw [setIo_tsTimer, closeStmt_tsTimer]
    exact Nat.le_succ _
  | userCloseStmt l c d p batch at_ body =>
    rw [setIo_tsTimer, closeStmt_tsTimer]
    exact Nat.le_succ _
  | timerClose k tn p node at_ body =>
    rw [setStage_tsTimer, closeStmt_tsTimer]
    exact Nat.le_succ _
  | _ => exact Nat.le_succ _

/-- A change of a connection that leaves its timer id alone. -/
theorem tcTimerId_modConn {d : Nat} {f : Conn → Conn}
    (hf : (f (s.conns d)).tcTimerId = (s.conns d).tcTimerId) (c : Nat) :
    ((s.modConn d f).conns c).tcTimerId = (s.conns c).tcTimerId := by
  rw [modConn_conns]
  by_cases hc : c = d
  · rw [hc, Function.update_self, hf]
  · rw [Function.update_of_ne hc]

/-- A statement of `do_close` leaves the stored timer ids alone. -/
theorem tcTimerId_closeStmt (d : Nat) (p : ClosePc) (c : Nat) :
    ((s.closeStmt d p).conns c).tcTimerId = (s.conns c).tcTimerId := by
  cases p with
  | enter => exact tcTimerId_modConn (f := fun tc ↦ { tc with closes := tc.closes + 1 }) rfl c
  | clearBufs => exact tcTimerId_modConn (f := fun tc ↦ { tc with tcObufLength := 0 }) rfl c
  | dropFd fd => exact tcTimerId_modConn (f := fun tc ↦ { tc with tcFd := -1 }) rfl c
  | doClean p => rw [conns_doClean]
  | _ => rfl

/-- The stored timer ids after a statement of `add_new_tcp_conn`. -/
theorem tcTimerId_addStmt (d : Nat) (p : AddPc) (c : Nat) :
    ((s.addStmt d p).conns c).tcTimerId =
      match p with
      | .setTimerId id => if c = d then id else (s.conns c).tcTimerId
      | _ => (s.conns c).tcTimerId := by
  cases p with
  | setTimerId id =>
    simp only [addStmt, modConn_conns]
    by_cases hc : c = d
    · simp [hc]
    · simp [hc]
  | _ => rfl

/-- A stored timer id is the old one, that of a new connection, or the one that the acceptor's
thread or a message stores. -/
theorem Step.tcTimerId (hstep : Step s a t) (c : Nat) :
    (t.conns c).tcTimerId = (s.conns c).tcTimerId ∨
      (c = s.connCount ∧ (t.conns c).tcTimerId = -1) ∨
        s.acceptor = .addNewTcpConn c (.setTimerId (t.conns c).tcTimerId) ∨
          ∃ l batch, s.io l =
            .message c (.addNewTcpConn (.setTimerId (t.conns c).tcTimerId)) batch := by
  cases hstep with
  | accept fd idle fresh started =>
    rw [acceptConn_conns]
    by_cases hc : c = s.connCount
    · exact Or.inr (Or.inl ⟨hc, by rw [hc, Function.update_self]; rfl⟩)
    · exact Or.inl (by rw [Function.update_of_ne hc])
  | acceptAdd ok d p at_ =>
    rw [setAcceptor_conns, tcTimerId_addStmt]
    cases p with
    | setTimerId id =>
      by_cases hc : c = d
      · exact Or.inr (Or.inr (Or.inl (by simp [at_, hc])))
      · exact Or.inl (by simp [hc])
    | _ => exact Or.inl rfl
  | messageAdd l d p batch at_ =>
    rw [setIo_conns, tcTimerId_addStmt]
    cases p with
    | setTimerId id =>
      by_cases hc : c = d
      · exact Or.inr (Or.inr (Or.inr ⟨l, batch, by simp [at_, hc]⟩))
      · exact Or.inl (by simp [hc])
    | _ => exact Or.inl rfl
  | send l e d len batch at_ known =>
    exact Or.inl (tcTimerId_modConn
      (f := fun tc ↦ { tc with tcObufLength := tc.tcObufLength + len }) rfl c)
  | obuf a d n =>
    exact Or.inl (tcTimerId_modConn (f := fun tc ↦ { tc with tcObufLength := n }) rfl c)
  | close l d p batch at_ body => exact Or.inl (tcTimerId_closeStmt d p c)
  | userCloseStmt l e d p batch at_ body => exact Or.inl (tcTimerId_closeStmt d p c)
  | timerClose k tn p node at_ body => exact Or.inl (tcTimerId_closeStmt tn.job p c)
  | _ => exact Or.inl rfl

/-- The acceptor's thread is about to store the id it had, or the id of the node just made. -/
theorem Step.acceptor_setTimerId (hstep : Step s a t) {c : Nat} {id : Int}
    (h : t.acceptor = .addNewTcpConn c (.setTimerId id)) :
    s.acceptor = .addNewTcpConn c (.setTimerId id) ∨ t.tsTimer.IdOf c id := by
  cases hstep.acceptorMove with
  | stay same => exact Or.inl (by rwa [← same])
  | accept idle after count =>
    rw [after] at h
    cases h
  | addTask d l op fd ev at_ after =>
    rw [after] at h
    cases h
  | addTaskCtl d l op fd ev at_ after =>
    rw [after] at h
    cases h
  | acceptAdd d p at_ after timer =>
    rw [after] at h
    cases p with
    | runAfter =>
      obtain ⟨rfl, rfl⟩ : d = c ∧ s.tsTimer.nextId = id := by
        simpa [addNext] using h
      refine Or.inr ⟨s.tsTimer.tmCount, ⟨s.tsTimer.nextId, d, .queued⟩, ?_, rfl, rfl⟩
      rw [timer]
      change (s.tsTimer.runAfter d).nodes _ = _
      rw [TimerState.nodes_runAfter, if_pos rfl]
    | setTimerId id => cases h
    | emplaceBack => cases h

/-- A message is about to store the id it had, or that of the node just made, and about to
cancel the id it had, or the stored one. -/
theorem Step.io_message (hstep : Step s a t) {l c : Nat} {p : MsgPc} {batch : List (Int × Mask)}
    (h : t.io l = .message c p batch) : s.io l = .message c p batch ∨
      match p with
      | .addNewTcpConn (.setTimerId id) => t.tsTimer.IdOf c id
      | .cancel id => id = (s.conns c).tcTimerId ∧ s.io l = .message c .getTimerId batch
      | _ => True := by
  cases hstep with
  | acceptAdd ok d p at_ =>
    rw [setAcceptor_io, addStmt_io] at h
    exact Or.inl h
  | io l₀ a pc pc' at_ move =>
    refine (io_setIo_eq h).imp_right fun hnew ↦ ?_
    obtain ⟨rfl, rfl⟩ := hnew
    cases move with
    | getTimerId c batch => exact ⟨rfl, at_⟩
    | _ => trivial
  | cancel l₀ d id batch at_ =>
    refine (io_setIo_eq h).imp_right fun hnew ↦ ?_
    cases hnew.2
    trivial
  | messageAdd l₀ d q batch at_ =>
    rcases io_setIo_eq h with hold | hnew
    · rw [addStmt_io] at hold
      exact Or.inl hold
    · refine Or.inr ?_
      cases q with
      | runAfter =>
        cases hnew.2
        refine ⟨s.tsTimer.tmCount, ⟨s.tsTimer.nextId, c, .queued⟩, ?_, rfl, rfl⟩
        change (s.tsTimer.runAfter c).nodes _ = _
        rw [TimerState.nodes_runAfter, if_pos rfl]
      | setTimerId id =>
        cases hnew.2
        trivial
      | emplaceBack =>
        cases hnew.2
        trivial
  | send l₀ e d len batch at_ known =>
    refine (io_setIo_eq h).imp_right fun hnew ↦ ?_
    cases hnew.2
    trivial
  | sendCtl l₀ ok e l' op fd ev batch at_ =>
    refine (io_setIo_eq h).imp_right fun hnew ↦ ?_
    cases hnew.2
    trivial
  | writeDel l₀ d op ev batch at_ drained call => exact (io_setIo_eq h).imp_right nofun
  | writeCtl l₀ ok d l' op fd ev batch at_ => exact (io_setIo_eq h).imp_right nofun
  | hupMap l₀ fd batch at_ => exact (io_setIo_eq h).imp_right nofun
  | hupCtl l₀ ok fd batch at_ => exact (io_setIo_eq h).imp_right nofun
  | close l₀ d q batch at_ body =>
    refine Or.inl (((io_setIo_eq h).resolve_right nofun).symm.trans ?_).symm
    rw [closeStmt_io]
  | userCloseStmt l₀ e d q batch at_ body =>
    refine Or.inl (((io_setIo_eq h).resolve_right nofun).symm.trans ?_).symm
    rw [closeStmt_io]
  | timerClose k tn q node at_ body =>
    rw [setStage_io, closeStmt_io] at h
    exact Or.inl h
  | _ => exact Or.inl h

/-- A step that finds fewer than 2³² − 1 nodes keeps the ids in place. -/
theorem TimerIds.step (h : s.TimerIds) (hstep : Step s a t)
    (bound : s.tsTimer.tmCount < 2 ^ 32 - 1) : t.TimerIds where
  numbered := hstep.numbered h.numbered
  bound := by
    have := hstep.tmCount_le
    omega
  conn c := by
    rcases hstep.tcTimerId c with hold | ⟨-, hnew⟩ | hacc | ⟨l, batch, hmsg⟩
    · rw [hold]
      exact (h.conn c).imp_right (hstep.idOf h.numbered)
    · exact Or.inl hnew
    · exact Or.inr (hstep.idOf h.numbered (h.acceptor c _ hacc))
    · exact Or.inr (hstep.idOf h.numbered (h.message l c _ batch hmsg))
  acceptor c id hacc := by
    rcases hstep.acceptor_setTimerId hacc with hold | hnew
    · exact hstep.idOf h.numbered (h.acceptor c id hold)
    · exact hnew
  message l c id batch hmsg := by
    rcases hstep.io_message hmsg with hold | hnew
    · exact hstep.idOf h.numbered (h.message l c id batch hold)
    · exact hnew
  cancel l c id batch hmsg := by
    rcases hstep.io_message hmsg with hold | hnew
    · exact (h.cancel l c id batch hold).imp_right (hstep.idOf h.numbered)
    · rw [hnew.1]
      exact (h.conn c).imp_right (hstep.idOf h.numbered)

/-- Cancelling an id of `c` concerns no node of another connection. -/
theorem TimerIds.job_of_cancel (h : s.TimerIds) {l c : Nat} {id : Int}
    {batch : List (Int × Mask)} (at_ : s.io l = .message c (.cancel id) batch) {k : Nat}
    {tn : TimerNode Nat ClosePc} (node : s.tsTimer.nodes k = some tn) (hid : tn.tnId = id) :
    tn.job = c := by
  have hb := h.bound
  rcases h.cancel l c id batch at_ with hneg | ⟨k', tn', hk', hj', hid'⟩
  · obtain ⟨hlt, he⟩ := h.numbered k tn node
    exact absurd (he.symm.trans (hid.trans hneg)) (counter32_ne_neg_one (by omega))
  · obtain rfl := h.numbered.id_inj (by omega) node hk' (hid.trans hid'.symm)
    rw [node] at hk'
    rw [Option.some.inj hk']
    exact hj'

/-! ### Armed nodes -/

/-- The node may still enter `do_close` of its connection. -/
def armed (s : Server) (tn : TimerNode Nat ClosePc) : Bool :=
  match tn.stage with
  | .queued | .popped => s.tsTimer.tmIdStateMap tn.tnId
  | .checked | .posted => true
  | .running p => p = .enter
  | .done | .dropped => false

/-- A node's move arms nothing. -/
theorem TimerMove.armed {k : Nat} {tn : TimerNode Nat ClosePc} {stage : TimerStage ClosePc}
    (h : TimerMove s k tn a stage) (hold : s.armed tn = false) :
    s.armed { tn with stage := stage } = false := by
  cases h with
  | expire at_ => simpa [Server.armed, at_] using hold
  | pass at_ key => simp [Server.armed, at_, key] at hold
  | drop at_ key => rfl
  | post at_ => simp [Server.armed, at_] at hold
  | begin at_ => simp [Server.armed, at_] at hold
  | done at_ => rfl

end Server

end ConcurrentServer.Net
