import ConcurrentServer.Base.Run
import ConcurrentServer.Net.Closing

/-!
# The list of connections

`ts_tcp_connections` in every run: `src/net/acceptor.cpp:91–103`,
`src/net/tcp_server.h:43–55`, `src/net/tcp_server.cpp:69–78`. `update_conn_timeout_time`
goes through `add_new_tcp_conn`, which adds the connection again and removes nothing. `do_clean`
walks through the list without the mutex, and what it erases is a position: an `erase` or an
`emplace_back` of another thread between its `begin()` and its `erase(i)` makes it the wrong one.
-/

namespace ConcurrentServer.Net
open ConcurrentServer.Base

/-- The thread is inside `update_conn_timeout_time` or `do_close`. -/
def IoPc.editing : IoPc → Bool
  | .message _ (.getTimerId) _ | .message _ (.cancel _) _ | .message _ (.addNewTcpConn _) _ => true
  | .closing _ _ _ | .userClosing _ _ _ _ => true
  | _ => false

/-- The callback of the node is inside `do_close`. -/
def TimerNode.editing (tn : TimerNode Nat ClosePc) : Bool :=
  match tn.stage with
  | .running _ => true
  | _ => false

/-- Between `begin()` and the end of `do_clean`. -/
def ClosePc.walking : ClosePc → Bool
  | .doClean (.scan _ _) | .doClean (.erase _) => true
  | _ => false

/-- At the `erase(i)` of `do_clean`. -/
def ClosePc.erasing : ClosePc → Bool
  | .doClean (.erase _) => true
  | _ => false

/-- At the `emplace_back` of `add_new_tcp_conn`. -/
def AcceptPc.emplacing : AcceptPc → Bool
  | .addNewTcpConn _ .emplaceBack => true
  | _ => false

/-- What a step of `do_clean` of `c` goes by while no other thread edits the list. -/
def CleanPc.Sound (conns : List Nat) (c : Nat) : CleanPc → Prop
  | .begin => True
  | .scan i e => e = conns.length ∧ i ≤ e ∧ c ∉ conns.take i
  | .erase i => conns[i]? = some c

namespace Server

/-- None of the operations that edit the list is in progress. -/
structure Quiescent (s : Server) : Prop where
  acceptor : s.acceptor = .idle
  io : ∀ l < s.tsThreadNum, (s.io l).editing = false
  timer : ∀ k < s.tsTimer.tmCount, (s.tsTimer.nodes k).any TimerNode.editing = false

instance (s : Server) : Decidable s.Quiescent :=
  decidable_of_iff (s.acceptor = .idle ∧ (∀ l < s.tsThreadNum, (s.io l).editing = false) ∧
      ∀ k < s.tsTimer.tmCount, (s.tsTimer.nodes k).any TimerNode.editing = false)
    ⟨fun h ↦ ⟨h.1, h.2.1, h.2.2⟩, fun h ↦ ⟨h.1, h.2, h.3⟩⟩

/-- The list holds each accepted connection once until its `do_close`, and nothing else. -/
def ListsOpen (s : Server) : Prop :=
  ∀ c, s.tsTcpConnections.count c = if c < s.connCount ∧ (s.conns c).closed = 0 then 1 else 0

/-- The connection that `update_conn_timeout_time` adds to the list. -/
def updateAdds (s : Server) : ServerAction → Option Nat
  | .message l =>
    match s.io l with
    | .message c (.addNewTcpConn .emplaceBack) _ => some c
    | _ => none
  | _ => none

/-- The connection whose `do_clean` ends. -/
def cleans (s : Server) (a : ServerAction) : Option Nat :=
  match s.closeStatement a with
  | some (c, .doClean p) => if s.cleanNext c p = none then some c else none
  | _ => none

/-- The threads that may be inside `do_close`. -/
def closers (s : Server) : List Closer :=
  (List.range s.tsThreadNum).map .loop ++ (List.range s.tsTimer.tmCount).map .node

/-- The thread is in the walk of a `do_clean`. -/
def walking (s : Server) (q : Closer) : Bool := (s.closing q).any fun x ↦ x.2.walking

/-- The thread is at the `erase(i)` of a `do_clean`. -/
def erasing (s : Server) (q : Closer) : Bool := (s.closing q).any fun x ↦ x.2.erasing

/-- The condition on a step: it is not the `emplace_back` of `update_conn_timeout_time`, it does
not end the `do_clean` of a connection that the acceptor still has to add, and while the acceptor
is at `emplace_back` or a thread at `erase(i)`, no other thread is walking through the list. -/
structure ListedOnce (s : Server) (a : ServerAction) : Prop where
  noUpdate : s.updateAdds a = none
  lateClean : ∀ c ∈ s.cleans a, s.acceptor.conn ≠ some c
  emplace : s.acceptor.emplacing = true → ∀ q ∈ s.closers, s.walking q = false
  erase : ∀ q ∈ s.closers, s.erasing q = true → ∀ q' ∈ s.closers, q' ≠ q → s.walking q' = false

instance (s : Server) (a : ServerAction) : Decidable (s.ListedOnce a) :=
  decidable_of_iff
    (s.updateAdds a = none ∧ (∀ c ∈ s.cleans a, s.acceptor.conn ≠ some c) ∧
      (s.acceptor.emplacing = true → ∀ q ∈ s.closers, s.walking q = false) ∧
      ∀ q ∈ s.closers, s.erasing q = true → ∀ q' ∈ s.closers, q' ≠ q → s.walking q' = false)
    ⟨fun h ↦ ⟨h.1, h.2.1, h.2.2.1, h.2.2.2⟩, fun h ↦ ⟨h.1, h.2, h.3, h.4⟩⟩

/-- What the condition keeps at every moment: the list has no duplicates, and its members are
the connections that the acceptor has added and whose `do_clean` has not ended. -/
structure Listed (s : Server) : Prop where
  nodup : s.tsTcpConnections.Nodup
  mem : ∀ c, c ∈ s.tsTcpConnections ↔
    c < s.connCount ∧ s.acceptor.conn ≠ some c ∧ (s.conns c).closed = 0
  held : ∀ c, s.acceptor.conn = some c → c < s.connCount ∧ (s.conns c).closed = 0

/-- What each walk through the list goes by holds. -/
def Walks (s : Server) : Prop :=
  ∀ q c p, s.closing q = some (c, .doClean p) → p.Sound s.tsTcpConnections c

variable {s t : Server} {a : ServerAction}

/-! ### One walk -/

/-- While it goes on, `do_clean` leaves the list. -/
theorem cleanList_of_next {c : Nat} {p p' : CleanPc} (h : s.cleanNext c p = some p') :
    s.cleanList p = s.tsTcpConnections := by
  cases p with
  | erase i => cases h
  | _ => rfl

/-- Each step of `do_clean` sets up the next. -/
theorem sound_next {c : Nat} {p p' : CleanPc}
    (h : p.Sound s.tsTcpConnections c) (hnext : s.cleanNext c p = some p') :
    p'.Sound s.tsTcpConnections c := by
  cases p with
  | begin =>
    obtain rfl := Option.some.inj hnext
    exact ⟨rfl, Nat.zero_le _, by simp⟩
  | scan i e =>
    obtain ⟨he, hi, hout⟩ := h
    simp only [cleanNext] at hnext
    split at hnext
    · cases hnext
    · next hend =>
      split at hnext
      · next hfound =>
        obtain rfl := Option.some.inj hnext
        exact hfound
      · next hother =>
        obtain rfl := Option.some.inj hnext
        refine ⟨he, by omega, ?_⟩
        rw [List.take_add_one, List.mem_append, Option.mem_toList]
        rintro (hin | hhere)
        · exact hout hin
        · exact hother hhere
  | erase i => cases hnext

/-- A walk that ends has taken its connection off the list. -/
theorem cleanList_of_end (nodup : s.tsTcpConnections.Nodup) {c : Nat} {p : CleanPc}
    (h : p.Sound s.tsTcpConnections c) (hend : s.cleanNext c p = none) :
    s.cleanList p = s.tsTcpConnections.erase c := by
  cases p with
  | begin => cases hend
  | scan i e =>
    obtain ⟨he, -, hout⟩ := h
    simp only [cleanNext] at hend
    split at hend
    · next hi =>
      rw [hi, he, List.take_length] at hout
      exact (List.erase_of_not_mem hout).symm
    · split at hend <;> cases hend
  | erase i =>
    obtain ⟨hlt, hc⟩ := List.getElem?_eq_some_iff.mp h
    rw [← hc, nodup.erase_getElem i hlt]
    rfl

/-! ### Every step keeps the list -/

/-- Steps that touch none of the four components keep the invariant. -/
theorem Listed.congr (h : s.Listed) (list : t.tsTcpConnections = s.tsTcpConnections)
    (count : t.connCount = s.connCount) (acceptor : t.acceptor.conn = s.acceptor.conn)
    (closed : ∀ c, (t.conns c).closed = (s.conns c).closed) : t.Listed where
  nodup := list ▸ h.nodup
  mem c := by rw [list, count, acceptor, closed]; exact h.mem c
  held c := by rw [count, acceptor, closed]; exact h.held c

/-- Changing a connection without its `closed` count keeps the invariant. -/
theorem Listed.modConn (h : s.Listed) (c : Nat) (f : Conn → Conn)
    (hf : (f (s.conns c)).closed = (s.conns c).closed) : (s.modConn c f).Listed := by
  refine h.congr rfl rfl rfl fun d ↦ ?_
  rw [modConn_conns]
  by_cases hd : d = c
  · rw [hd, Function.update_self, hf]
  · rw [Function.update_of_ne hd]

/-- A started server lists nothing. -/
theorem listed_init (n : Nat) (elEvfd : Nat → Int) : (init n elEvfd).Listed := by
  constructor <;> simp [init, AcceptPc.conn]

/-- A started server has no thread inside `do_close`. -/
theorem walks_init (n : Nat) (elEvfd : Nat → Int) : (init n elEvfd).Walks := by
  intro q c p hq
  cases q <;> cases hq

/-- A statement of `do_close` keeps the invariant, unless it ends a `do_clean` before the
connection was added. -/
theorem Listed.closeStmt (h : s.Listed) (c : Nat) (p : ClosePc)
    (sound : ∀ q, p = .doClean q → q.Sound s.tsTcpConnections c)
    (late : ∀ q, p = .doClean q → s.cleanNext c q = none → s.acceptor.conn ≠ some c) :
    (s.closeStmt c p).Listed := by
  cases p with
  | enter => exact h.modConn c (fun tc ↦ { tc with closes := tc.closes + 1 }) rfl
  | loadFd => exact h
  | delMap fd => exact h.congr rfl rfl rfl fun _ ↦ rfl
  | delCtl l fd => exact h.congr rfl rfl rfl fun _ ↦ rfl
  | clearBufs => exact h.modConn c (fun tc ↦ { tc with tcObufLength := 0 }) rfl
  | takeFd => exact h
  | dropFd fd => exact h.modConn c (fun tc ↦ { tc with tcFd := -1 }) rfl
  | closeFd fd => exact h.congr rfl rfl rfl fun _ ↦ rfl
  | doClean q =>
    cases hend : s.cleanNext c q with
    | some q' =>
      have hsame := h.modConn c (fun tc ↦
        { tc with closed := if s.cleanNext c q = none then tc.closed + 1 else tc.closed })
        (by simp [hend])
      exact hsame.congr (cleanList_of_next hend) rfl rfl fun _ ↦ rfl
    | none =>
      have hc := late q rfl hend
      have hlist : (s.closeStmt c (.doClean q)).tsTcpConnections = s.tsTcpConnections.erase c :=
        cleanList_of_end h.nodup (sound q rfl) hend
      refine ⟨hlist ▸ h.nodup.erase c, fun d ↦ ?_, fun d hd ↦ ?_⟩
      · rw [hlist, h.nodup.mem_erase_iff, h.mem]
        by_cases hd : d = c
        · simp [Server.closeStmt, cleanStmt, hd, hend]
        · simp [Server.closeStmt, cleanStmt, hd]
      · have hne : d ≠ c := by
          rintro rfl
          exact hc hd
        have := h.held d hd
        simpa [Server.closeStmt, cleanStmt, hne] using this
  | ret => exact h

/-- A thread executes a statement of `do_close`. -/
theorem Listed.close (h : s.Listed) (walks : s.Walks) (hok : s.ListedOnce a) {q : Closer} {c : Nat}
    {p : ClosePc} (by_ : a = q.action) (hq : s.closing q = some (c, p)) :
    (s.closeStmt c p).Listed := by
  refine h.closeStmt c p (fun p' hp ↦ walks q c p' (by rw [hq, hp])) fun p' hp hend ↦ ?_
  exact hok.lateClean c (by simp [cleans, by_, closeStatement_action, hq, hp, hend])

/-- An admitted step keeps the invariant. -/
theorem Listed.step (h : s.Listed) (walks : s.Walks) (hok : s.ListedOnce a)
    (hstep : Step s a t) : t.Listed := by
  cases hstep with
  | accept fd idle fresh started =>
    have hnone : s.acceptor.conn = none := by rw [idle]; rfl
    refine ⟨h.nodup, fun c ↦ ?_, fun c hc ↦ ?_⟩
    · rw [acceptConn_tsTcpConnections, acceptConn_connCount, acceptConn_acceptor,
        acceptConn_conns, h.mem, hnone]
      by_cases hc : c = s.connCount
      · simp [hc, AcceptPc.conn]
      · rw [Function.update_of_ne hc]
        constructor
        · rintro ⟨hlt, -, h0⟩
          exact ⟨by omega, by simpa [AcceptPc.conn] using Ne.symm hc, h0⟩
        · rintro ⟨hlt, -, h0⟩
          exact ⟨by omega, nofun, h0⟩
    · cases hc
      simp [newConn]
  | addTask ok c at_ => exact h.congr rfl rfl (by rw [at_]; rfl) fun _ ↦ rfl
  | addTaskCtl ok c l op fd ev at_ => exact h.congr rfl rfl (by rw [at_]; rfl) fun _ ↦ rfl
  | acceptAdd ok c p at_ =>
    cases p with
    | runAfter => exact h.congr rfl rfl (by rw [at_]; rfl) fun _ ↦ rfl
    | setTimerId id =>
      have hset := h.modConn c (fun tc ↦ { tc with tcTimerId := id }) rfl
      exact hset.congr rfl rfl (by rw [modConn_acceptor, at_]; rfl) fun _ ↦ rfl
    | emplaceBack =>
      -- the only way into the list
      have hconn : s.acceptor.conn = some c := by rw [at_]; rfl
      have hout : c ∉ s.tsTcpConnections := fun hin ↦ ((h.mem c).mp hin).2.1 hconn
      refine ⟨?_, fun d ↦ ?_, fun d hd ↦ ?_⟩
      · exact List.nodup_append.mpr ⟨h.nodup, List.nodup_singleton c, by
          intro x hx y hy hxy
          cases List.mem_singleton.mp hy
          exact hout (hxy ▸ hx)⟩
      · change d ∈ s.tsTcpConnections ++ [c] ↔ d < s.connCount ∧ none ≠ some d ∧ _
        rw [List.mem_append, List.mem_singleton, h.mem, hconn]
        by_cases hd : d = c
        · subst hd
          have := h.held d hconn
          simp [Server.addStmt, this]
        · simp [Server.addStmt, hd, Ne.symm hd]
      · cases hd
  | io l a pc pc' at_ move => exact h.congr rfl rfl rfl fun _ ↦ rfl
  | abort l fd events batch at_ missing => exact h.congr rfl rfl rfl fun _ ↦ rfl
  | cancel l c id batch at_ => exact h.congr rfl rfl rfl fun _ ↦ rfl
  | messageAdd l c p batch at_ =>
    cases p with
    | runAfter => exact h.congr rfl rfl rfl fun _ ↦ rfl
    | setTimerId id =>
      have hset := h.modConn c (fun tc ↦ { tc with tcTimerId := id }) rfl
      exact hset.congr rfl rfl rfl fun _ ↦ rfl
    | emplaceBack =>
      have hadds := hok.noUpdate
      simp [updateAdds, at_] at hadds
  | send l c d len batch at_ known =>
    have hput := h.modConn d (fun tc ↦ { tc with tcObufLength := tc.tcObufLength + len }) rfl
    exact hput.congr rfl rfl rfl fun _ ↦ rfl
  | sendFails l d len => exact h
  | obuf a d n => exact h.modConn d _ rfl
  | sendCtl l ok c l' op fd ev batch at_ => exact h.congr rfl rfl rfl fun _ ↦ rfl
  | writeDel l c op ev batch at_ drained call => exact h.congr rfl rfl rfl fun _ ↦ rfl
  | writeCtl l ok c l' op fd ev batch at_ => exact h.congr rfl rfl rfl fun _ ↦ rfl
  | hupMap l fd batch at_ => exact h.congr rfl rfl rfl fun _ ↦ rfl
  | hupCtl l ok fd batch at_ => exact h.congr rfl rfl rfl fun _ ↦ rfl
  | close l c p batch at_ body =>
    have hp := h.close walks hok (q := .loop l) rfl (by rw [closing, at_]; rfl)
    exact hp.congr rfl rfl rfl fun _ ↦ rfl
  | userCloseStmt l c d p batch at_ body =>
    have hp := h.close walks hok (q := .loop l) rfl (by rw [closing, at_]; rfl)
    exact hp.congr rfl rfl rfl fun _ ↦ rfl
  | timer k tn a stage node move => exact h.congr rfl rfl rfl fun _ ↦ rfl
  | timerClose k tn p node at_ body =>
    have hp := h.close walks hok (q := .node k) (c := tn.job) (p := p) rfl (by
      simp [closing, node, TimerNode.closing?, at_])
    exact hp.congr rfl rfl rfl fun _ ↦ rfl

/-! ### Every step keeps the walks -/

/-- A thread inside `do_close` is one of those that the condition looks at. -/
theorem mem_closers (threads : s.NoOtherThread) (numbered : s.tsTimer.Numbered) {q : Closer}
    {x : Nat × ClosePc} (hq : s.closing q = some x) : q ∈ s.closers := by
  rw [closers, List.mem_append, List.mem_map, List.mem_map]
  cases q with
  | loop l =>
    change (s.io l).closing? = _ at hq
    refine Or.inl ⟨l, List.mem_range.mpr ?_, rfl⟩
    by_contra hl
    rw [threads l (by omega)] at hq
    cases hq
  | node k =>
    obtain ⟨tn, hk, -⟩ := Option.bind_eq_some_iff.mp hq
    exact Or.inr ⟨k, List.mem_range.mpr (numbered k tn hk).1, rfl⟩

/-- A walk goes by the same while the list stays, and before its `begin()` by nothing. -/
theorem sound_of_list {c : Nat} {p : CleanPc} (h : p.Sound s.tsTcpConnections c)
    (list : t.tsTcpConnections = s.tsTcpConnections ∨ (ClosePc.doClean p).walking = false) :
    p.Sound t.tsTcpConnections c := by
  rcases list with hsame | hbegin
  · rw [hsame]
    exact h
  · cases p with
    | begin => exact trivial
    | _ => cases hbegin

/-- The list stays, or the step is the acceptor's `emplace_back` or an `erase(i)`. -/
theorem Step.edits (hstep : Step s a t) (noUpdate : s.updateAdds a = none) :
    t.tsTcpConnections = s.tsTcpConnections ∨ s.acceptor.emplacing = true ∨
      ∃ q : Closer, a = q.action ∧ s.erasing q = true := by
  have hclose {c : Nat} {p : ClosePc} (q : Closer) (hq : s.closing q = some (c, p)) :
      (s.closeStmt c p).tsTcpConnections = s.tsTcpConnections ∨ s.erasing q = true := by
    cases p with
    | doClean p =>
      cases p with
      | erase i => exact Or.inr (by simp [erasing, hq, ClosePc.erasing])
      | _ => exact Or.inl rfl
    | _ => exact Or.inl rfl
  cases hstep with
  | acceptAdd ok c p at_ =>
    cases p with
    | emplaceBack => exact Or.inr (Or.inl (by rw [at_]; rfl))
    | _ => exact Or.inl rfl
  | messageAdd l c p batch at_ =>
    cases p with
    | emplaceBack => simp [updateAdds, at_] at noUpdate
    | _ => exact Or.inl rfl
  | close l c p batch at_ body =>
    exact (hclose (.loop l) (by rw [closing, at_]; rfl)).imp_right fun h ↦ Or.inr ⟨_, rfl, h⟩
  | userCloseStmt l c d p batch at_ body =>
    exact (hclose (.loop l) (by rw [closing, at_]; rfl)).imp_right fun h ↦ Or.inr ⟨_, rfl, h⟩
  | timerClose k tn p node at_ body =>
    refine (hclose (.node k) ?_).imp_right fun h ↦ Or.inr ⟨_, rfl, h⟩
    simp [closing, node, TimerNode.closing?, at_]
  | _ => exact Or.inl rfl

/-- Where an admitted step edits the list, no other thread is walking through it. -/
theorem ListedOnce.alone (h : s.ListedOnce a) (threads : s.NoOtherThread)
    (numbered : s.tsTimer.Numbered)
    (edits : s.acceptor.emplacing = true ∨ ∃ q : Closer, a = q.action ∧ s.erasing q = true)
    {q : Closer} {c : Nat} {p : ClosePc} (hq : s.closing q = some (c, p))
    (other : a ≠ q.action) : p.walking = false := by
  have hmem := mem_closers threads numbered hq
  have hwalking : s.walking q = false := by
    rcases edits with hemplace | ⟨q', hact, herase⟩
    · exact h.emplace hemplace q hmem
    · obtain ⟨x, hx, -⟩ := (Option.any_eq_true ..).mp herase
      exact h.erase q' (mem_closers threads numbered hx) herase q hmem fun he ↦ other (he ▸ hact)
  simpa [walking, hq] using hwalking

/-- An admitted step keeps what the walks go by. -/
theorem Walks.step (h : s.Walks) (threads : s.NoOtherThread) (numbered : s.tsTimer.Numbered)
    (hok : s.ListedOnce a) (hstep : s.step a = some t) : t.Walks := by
  have hedits := (step_inversion hstep).edits hok.noUpdate
  -- the walk of a thread that has not moved
  have stay {q : Closer} {c : Nat} {p : CleanPc} (hq : s.closing q = some (c, .doClean p))
      (other : a = q.action → t.tsTcpConnections = s.tsTcpConnections) :
      p.Sound t.tsTcpConnections c := by
    refine sound_of_list (h q c p hq) ?_
    by_cases hact : a = q.action
    · exact Or.inl (other hact)
    · exact hedits.imp_right fun hedit ↦ hok.alone threads numbered hedit hq hact
  intro q c p hq
  cases effect_of_step numbered hstep with
  | silent fdOpen count conns list leave new =>
    exact stay ((new q c _ hq).resolve_right nofun) (list q)
  | accept fd valid fresh eq => exact stay (by rw [← hq, eq]; rfl) fun _ ↦ by rw [eq]; rfl
  | close q₀ d p₀ by_ at_ body next others fdOpen count conns list =>
    by_cases hqq : q = q₀
    · subst hqq
      rw [next, Option.some.injEq, Prod.mk.injEq] at hq
      obtain ⟨rfl, hp⟩ := hq
      cases p₀ with
      | doClean p' =>
        cases hnext : s.cleanNext d p' with
        | none => simp [closeNext, hnext] at hp
        | some p'' =>
          simp only [closeNext, hnext, Option.elim_some, ClosePc.doClean.injEq] at hp
          subst hp
          have hsame : t.tsTcpConnections = s.tsTcpConnections :=
            list.trans (cleanList_of_next hnext)
          rw [hsame]
          exact sound_next (h q d p' at_) hnext
      | closeFd fd =>
        cases hp
        exact trivial
      | _ => cases hp
    · rw [others q hqq] at hq
      exact stay hq fun hact ↦ absurd (Closer.action_inj (hact.symm.trans by_)) hqq

/-- In every run in which no message is processed as far as the `emplace_back`, no `do_clean` ends
before the acceptor has added its connection, and no thread walks through the list while the
acceptor is at `emplace_back` or another thread at `erase(i)`: whenever no operation on the list is
in progress, the list holds each accepted connection exactly once until its `do_close` has
completed, and no closed one. -/
theorem lists_open_connections_once {n : Nat} {elEvfd : Nat → Int}
    (h : ReachBy Server.step ListedOnce (init n elEvfd) s) (quiet : s.Quiescent) :
    s.ListsOpen := by
  have hinv : (s.NoOtherThread ∧ s.tsTimer.Numbered) ∧ s.Listed ∧ s.Walks :=
    h.invariant
      (P := fun s ↦ (s.NoOtherThread ∧ s.tsTimer.Numbered) ∧ s.Listed ∧ s.Walks)
      ⟨⟨noOtherThread_init n elEvfd, TimerState.numbered_init⟩, listed_init n elEvfd,
        walks_init n elEvfd⟩
      fun s a t hs hok hstep ↦ ⟨⟨hs.1.1.step (step_inversion hstep),
        (step_inversion hstep).numbered hs.1.2⟩,
        hs.2.1.step hs.2.2 hok (step_inversion hstep), hs.2.2.step hs.1.1 hs.1.2 hok hstep⟩
  obtain ⟨-, hl, -⟩ := hinv
  intro c
  have hmem := hl.mem c
  have hnone : s.acceptor.conn ≠ some c := by rw [quiet.acceptor]; exact nofun
  by_cases hc : c < s.connCount ∧ (s.conns c).closed = 0
  · rw [if_pos hc]
    exact List.count_eq_one_of_mem hl.nodup (hmem.mpr ⟨hc.1, hnone, hc.2⟩)
  · rw [if_neg hc]
    exact List.count_eq_zero.mpr fun hin ↦ hc ⟨(hmem.mp hin).1, (hmem.mp hin).2.2⟩

/-- One connection on descriptor 7, accepted and added. -/
def acceptRun : List ServerAction := .accept 7 :: List.replicate 5 (.acceptor true)

/-- The timeout of the first connection closes it. -/
def timeoutRun : List ServerAction :=
  [.expire 0, .check 0, .post 0, .begin 0] ++ List.replicate 12 (.timerClose 0)

/-- One message of the connection on descriptor 7. -/
def messageRun : List ServerAction :=
  [.wait 0 [(7, EPOLLIN)], .lookup 0, .readData 0] ++ List.replicate 5 (.message 0) ++
    [.endMessage 0, .endMessage 0, .lookup 0]

/-- A connection that times out without a message has been listed once and is off the list. -/
theorem silent_connection_listed_once :
    ∃ s, run Server.step (init 1 fun _ ↦ 3) (acceptRun ++ timeoutRun) = some s ∧ ListsOpen s := by
  have hrun : (run Server.step (init 1 fun _ ↦ 3) (acceptRun ++ timeoutRun)).isSome := by
    decide +kernel
  have hquiet : ∀ t ∈ run Server.step (init 1 fun _ ↦ 3) (acceptRun ++ timeoutRun),
      t.Quiescent := by decide +kernel
  obtain ⟨s, hs⟩ := Option.isSome_iff_exists.mp hrun
  exact ⟨s, hs, lists_open_connections_once (reachBy_of_run hs (by decide +kernel))
    (hquiet s hs)⟩

/-- After one message the connection is listed twice. -/
theorem message_lists_connection_twice :
    ¬ ∀ (n : Nat) (elEvfd : Nat → Int) (s : Server),
      Reach Server.step (init n elEvfd) s → s.Quiescent → s.ListsOpen := by
  intro h
  have hrun : (run Server.step (init 1 fun _ ↦ 3) (acceptRun ++ messageRun)).isSome := by
    decide +kernel
  have hquiet : ∀ t ∈ run Server.step (init 1 fun _ ↦ 3) (acceptRun ++ messageRun),
      t.Quiescent ∧ t.connCount = 1 ∧ t.tsTcpConnections = [0, 0] ∧
        (t.conns 0).closed = 0 := by decide +kernel
  obtain ⟨s, hs⟩ := Option.isSome_iff_exists.mp hrun
  obtain ⟨hq, hcount, hlist, hclosed⟩ := hquiet s hs
  have honce := h 1 (fun _ ↦ 3) s (reach_of_run hs) hq 0
  rw [hlist, hcount, hclosed] at honce
  exact absurd honce (by decide)

/-- Three connections, of which two time out; the second walk through the list begins between the
first one's `begin()` and its `erase(i)`. -/
def overlappingWalks : List ServerAction :=
  [7, 8, 9].flatMap (fun fd ↦ .accept fd :: List.replicate 5 (.acceptor true)) ++
    [0, 1].flatMap (fun k ↦
      [.expire k, .check k, .post k, .begin k] ++ List.replicate 8 (.timerClose k)) ++
    [0, 0, 1, 1, 1, 0, 1, 0, 1].map .timerClose

-- Without any message, a closed connection stays on the list and an open one is lost.
example : (run Server.step (init 1 fun _ ↦ 3) overlappingWalks).map (fun s ↦
    (s.tsTcpConnections, (s.conns 1).closed, (s.conns 2).closed, decide s.Quiescent)) =
      some ([1], 1, 0, true) := by
  decide +kernel

end Server

end ConcurrentServer.Net
