import ConcurrentServer.Base.Run
import ConcurrentServer.Net.Closing
import ConcurrentServer.Net.ConnTimers

/-!
# The inactivity timer of a connection

Which timers of a connection can still close it, in every run: `src/net/acceptor.cpp:91–103`,
`src/net/tcp_server.h:43–55`, `src/net/tcp_server.cpp:24–30`, `src/timer/timer.h:61–121`. The
acceptor's thread publishes a connection before it makes its first timer, so that a message
may read `tc_timer_id` while it is still −1.
-/

namespace ConcurrentServer.Net
open ConcurrentServer.Base

/-- While the acceptor's thread is between publishing `c` and storing its first timer id: the
id that it has still to store, if `run_after` has returned it. -/
def AcceptPc.newId (c : Nat) : AcceptPc → Option (Option Int)
  | .addTask c' | .addTaskCtl c' _ _ _ _ | .addNewTcpConn c' .runAfter =>
    if c' = c then some none else none
  | .addNewTcpConn c' (.setTimerId id) => if c' = c then some (some id) else none
  | .addNewTcpConn _ .emplaceBack | .idle => none

/-- While a message of `c` is between cancelling its timer and storing the id of the next one:
the id that it has still to store, if `run_after` has returned it. -/
def IoPc.newId (c : Nat) : IoPc → Option (Option Int)
  | .message c' (.addNewTcpConn .runAfter) _ => if c' = c then some none else none
  | .message c' (.addNewTcpConn (.setTimerId id)) _ => if c' = c then some (some id) else none
  | _ => none

/-- The connection of a message that has read the timer id. -/
def IoPc.pastRead : IoPc → Option Nat
  | .message _ .getTimerId _ => none
  | .message c _ _ | .userClosing c _ _ _ => some c
  | _ => none

/-- The connection whose message the thread is processing. -/
def IoPc.processing : IoPc → Option Nat
  | .message c _ _ | .userClosing c _ _ _ => some c
  | _ => none

namespace Server

/-- The node has fired and has still to enter `do_close`. -/
def due (tn : TimerNode Nat ClosePc) : Bool :=
  match tn.stage with
  | .checked | .posted => true
  | .running p => p = .enter
  | .queued | .popped | .done | .dropped => false

/-- The id of the timer that was made last for `c`; there is none while a thread is about to
make it. -/
def currentId (s : Server) (c : Nat) : Option Int :=
  ((s.acceptor.newId c).or ((s.io (s.conns c).tcLoop).newId c)).getD
    (some (s.conns c).tcTimerId)

/-- Exactly one timer of `c` is neither fired nor cancelled, and its id is the stored one. -/
def OneTimer (s : Server) (c : Nat) : Prop :=
  ∃ k tn, s.tsTimer.Live k tn ∧ tn.job = c ∧ tn.tnId = (s.conns c).tcTimerId ∧
    ∀ k' tn', s.tsTimer.Live k' tn' → tn'.job = c → k' = k

/-- A timer of `c` that has fired and has still to close it was made after all others. -/
def NewestCloses (s : Server) (c : Nat) : Prop :=
  ∀ k tn, s.tsTimer.nodes k = some tn → tn.job = c → due tn = true →
    ∀ k' tn', s.tsTimer.nodes k' = some tn' → tn'.job = c → k' ≤ k

/-- The connection whose timer id an action reads in order to cancel it. -/
def readsTimerId (s : Server) : ServerAction → Option Nat
  | .message l =>
    match s.io l with
    | .message c .getTimerId _ => some c
    | _ => none
  | _ => none

/-- The connection whose timer an action cancels. -/
def cancelsTimer (s : Server) : ServerAction → Option Nat
  | .message l =>
    match s.io l with
    | .message c (.cancel _) _ => some c
    | _ => none
  | _ => none

/-- The condition on a step: a message reads the timer id only after the acceptor's thread has
stored the first one, it cancels only while no timer of the connection has fired and has still
to close it, and the timer has made fewer than 2³² − 1 nodes. -/
structure RearmsInTime (s : Server) (a : ServerAction) : Prop where
  stored : ∀ c ∈ s.readsTimerId a, s.acceptor.newId c = none
  waiting : ∀ c ∈ s.cancelsTimer a, ∀ k < s.tsTimer.tmCount, ∀ tn ∈ s.tsTimer.nodes k,
    tn.job = c → due tn = false
  bound : s.tsTimer.tmCount < 2 ^ 32 - 1

instance (s : Server) (a : ServerAction) : Decidable (s.RearmsInTime a) :=
  decidable_of_iff
    ((∀ c ∈ s.readsTimerId a, s.acceptor.newId c = none) ∧
      (∀ c ∈ s.cancelsTimer a, ∀ k < s.tsTimer.tmCount, ∀ tn ∈ s.tsTimer.nodes k,
        tn.job = c → due tn = false) ∧ s.tsTimer.tmCount < 2 ^ 32 - 1)
    ⟨fun h ↦ ⟨h.1, h.2.1, h.2.2⟩, fun h ↦ ⟨h.1, h.2, h.3⟩⟩

/-- Every armed node of `c` is the current one and the newest; and until a node has fired the
current one is armed. -/
structure Timed (s : Server) (c : Nat) : Prop where
  current : ∀ k tn, s.tsTimer.nodes k = some tn → tn.job = c → s.armed tn = true →
    s.currentId c = some tn.tnId
  newest : ∀ k tn, s.tsTimer.nodes k = some tn → tn.job = c → s.armed tn = true →
    ∀ k' tn', s.tsTimer.nodes k' = some tn' → tn'.job = c → k' ≤ k
  live : ¬ s.tsTimer.Fired c → ∀ id, s.currentId c = some id →
    ∃ k tn, s.tsTimer.Live k tn ∧ tn.job = c ∧ tn.tnId = id

/-- What the condition keeps. -/
structure Rearmed (s : Server) : Prop where
  known : s.Known
  ids : s.TimerIds
  stored : ∀ l c, (s.io l).pastRead = some c → s.acceptor.newId c = none
  cancel : ∀ l c id batch, s.io l = .message c (.cancel id) batch → id = (s.conns c).tcTimerId
  timed : ∀ c < s.connCount, s.Timed c

variable {s t : Server} {a : ServerAction} {c : Nat}

/-! ### The current id -/

/-- A started server has no connections. -/
theorem rearmed_init (n : Nat) (elEvfd : Nat → Int) : (init n elEvfd).Rearmed where
  known := known_init n elEvfd
  ids := timerIds_init n elEvfd
  stored _ _ h := nomatch h
  cancel _ _ _ _ h := nomatch h
  timed _ h := nomatch h

/-- The current id is read off the places of two threads and the stored id. -/
theorem currentId_congr (acceptor : t.acceptor.newId c = s.acceptor.newId c)
    (io : ∀ l, (t.io l).newId c = (s.io l).newId c)
    (loop : (t.conns c).tcLoop = (s.conns c).tcLoop)
    (id : (t.conns c).tcTimerId = (s.conns c).tcTimerId) : t.currentId c = s.currentId c := by
  rw [currentId, currentId, acceptor, loop, io, id]

/-- A thread moves on without a change to what it has made for `c`. -/
theorem newId_setIo {u : Server} {l : Nat} {pc : IoPc} (io : u.io = s.io)
    (h : pc.newId c = (s.io l).newId c) (l' : Nat) :
    ((u.setIo l pc).io l').newId c = (s.io l').newId c := by
  rw [setIo_io, io]
  by_cases hl : l' = l
  · rw [hl, Function.update_self, h]
  · rw [Function.update_of_ne hl]

/-! ### Armed nodes -/

/-- An armed node is live or due. -/
theorem armed_iff {tn : TimerNode Nat ClosePc} : s.armed tn = true ↔
    (tn.stage.waiting = true ∧ s.tsTimer.tmIdStateMap tn.tnId = true) ∨ due tn = true := by
  unfold armed due
  cases tn.stage <;> simp [TimerStage.waiting]

/-- Whether a node is armed depends on the key of its id. -/
theorem armed_congr {tn : TimerNode Nat ClosePc}
    (key : t.tsTimer.tmIdStateMap tn.tnId = s.tsTimer.tmIdStateMap tn.tnId) :
    t.armed tn = s.armed tn := by
  simp only [armed, key]

/-- What holds of the timers of a connection is read off the timer and the current id. -/
theorem Timed.congr (h : s.Timed c) (current : t.currentId c = s.currentId c)
    (timer : t.tsTimer = s.tsTimer) : t.Timed c where
  current := by
    simp only [timer, current, armed]
    exact h.current
  newest := by
    simp only [timer, armed]
    exact h.newest
  live := by
    simp only [timer, current]
    exact h.live

/-- `run_after` makes the current node of a connection that has none. -/
theorem Timed.runAfter_self (h : s.Timed c) (numbered : s.tsTimer.Numbered)
    (bound : s.tsTimer.tmCount < 2 ^ 32 - 1) (unmade : s.currentId c = none)
    (made : t.currentId c = some s.tsTimer.nextId) (timer : t.tsTimer = s.tsTimer.runAfter c) :
    t.Timed c := by
  have old {k tn} (hk : s.tsTimer.nodes k = some tn) (hj : tn.job = c) : t.armed tn = false := by
    have hkey : t.tsTimer.tmIdStateMap tn.tnId = s.tsTimer.tmIdStateMap tn.tnId := by
      rw [timer]
      exact if_neg (numbered.nextId_fresh (by omega) hk)
    rw [armed_congr hkey]
    by_contra harmed
    have := h.current k tn hk hj (by simpa using harmed)
    rw [unmade] at this
    cases this
  refine ⟨fun k tn hk hj harmed ↦ ?_, fun k tn hk hj harmed k' tn' hk' hj' ↦ ?_,
    fun _ i hi ↦ ?_⟩
  · rw [timer, TimerState.nodes_runAfter] at hk
    split at hk
    · obtain rfl := Option.some.inj hk
      exact made
    · rw [old hk hj] at harmed
      cases harmed
  · rw [timer, TimerState.nodes_runAfter] at hk hk'
    split at hk
    · split at hk'
      · omega
      · have := (numbered k' tn' hk').1
        omega
    · rw [old hk hj] at harmed
      cases harmed
  · obtain rfl := Option.some.inj (made.symm.trans hi)
    refine ⟨s.tsTimer.tmCount, ⟨s.tsTimer.nextId, c, .queued⟩, ⟨?_, rfl, ?_⟩, rfl, rfl⟩
    · rw [timer, TimerState.nodes_runAfter, if_pos rfl]
    · rw [timer, TimerState.tmIdStateMap_runAfter, if_pos rfl]

/-- `run_after` for another connection. -/
theorem Timed.runAfter_other (h : s.Timed c) (numbered : s.tsTimer.Numbered)
    (bound : s.tsTimer.tmCount < 2 ^ 32 - 1) {d : Nat} (hd : d ≠ c)
    (current : t.currentId c = s.currentId c) (timer : t.tsTimer = s.tsTimer.runAfter d) :
    t.Timed c := by
  have node {k tn} (hk : t.tsTimer.nodes k = some tn) (hj : tn.job = c) :
      s.tsTimer.nodes k = some tn := by
    rw [timer, TimerState.nodes_runAfter] at hk
    split at hk
    · obtain rfl := Option.some.inj hk
      exact absurd hj hd
    · exact hk
  have key {k tn} (hk : s.tsTimer.nodes k = some tn) :
      t.tsTimer.tmIdStateMap tn.tnId = s.tsTimer.tmIdStateMap tn.tnId := by
    rw [timer]
    exact if_neg (numbered.nextId_fresh (by omega) hk)
  have kept {k tn} (hk : s.tsTimer.nodes k = some tn) : t.tsTimer.nodes k = some tn := by
    have hlt := (numbered k tn hk).1
    rw [timer, TimerState.nodes_runAfter, if_neg (by omega), hk]
  refine ⟨fun k tn hk hj harmed ↦ ?_, fun k tn hk hj harmed k' tn' hk' hj' ↦ ?_,
    fun hfired i hi ↦ ?_⟩
  · rw [armed_congr (key (node hk hj))] at harmed
    exact current.trans (h.current k tn (node hk hj) hj harmed)
  · rw [armed_congr (key (node hk hj))] at harmed
    exact h.newest k tn (node hk hj) hj harmed k' tn' (node hk' hj') hj'
  · rw [current] at hi
    obtain ⟨k, tn, ⟨hk, hw, hkey⟩, hj, rfl⟩ :=
      h.live (fun ⟨k, tn, hk, hj, hf⟩ ↦ hfired ⟨k, tn, kept hk, hj, hf⟩) i hi
    exact ⟨k, tn, ⟨kept hk, hw, (key hk).trans hkey⟩, hj, rfl⟩

/-- `cancel` of the current id while no node of the connection is due. -/
theorem Timed.cancel_self (h : s.Timed c) {i : Int} (made : s.currentId c = some i)
    (waiting : ∀ k tn, s.tsTimer.nodes k = some tn → tn.job = c → due tn = false)
    (unmade : t.currentId c = none) (timer : t.tsTimer = s.tsTimer.cancel i) : t.Timed c := by
  have unarmed {k tn} (hk : t.tsTimer.nodes k = some tn) (hj : tn.job = c)
      (harmed : t.armed tn = true) : False := by
    rw [timer, TimerState.nodes_cancel] at hk
    rcases armed_iff.mp harmed with ⟨hw, hkey⟩ | hdue
    · rw [timer, TimerState.tmIdStateMap_cancel] at hkey
      split at hkey
      · cases hkey
      · next hne =>
        have := h.current k tn hk hj (armed_iff.mpr (Or.inl ⟨hw, hkey⟩))
        exact hne (Option.some.inj (made.symm.trans this)).symm
    · rw [waiting k tn hk hj] at hdue
      cases hdue
  refine ⟨fun k tn hk hj harmed ↦ (unarmed hk hj harmed).elim,
    fun k tn hk hj harmed ↦ (unarmed hk hj harmed).elim, fun _ i hi ↦ ?_⟩
  rw [unmade] at hi
  cases hi

/-- `cancel` of an id that is none of the connection's. -/
theorem Timed.cancel_other (h : s.Timed c) {i : Int}
    (other : ∀ k tn, s.tsTimer.nodes k = some tn → tn.tnId = i → tn.job ≠ c)
    (current : t.currentId c = s.currentId c) (timer : t.tsTimer = s.tsTimer.cancel i) :
    t.Timed c := by
  have key {k tn} (hk : s.tsTimer.nodes k = some tn) (hj : tn.job = c) :
      t.tsTimer.tmIdStateMap tn.tnId = s.tsTimer.tmIdStateMap tn.tnId := by
    rw [timer]
    exact if_neg fun he ↦ other k tn hk he hj
  have nodes : t.tsTimer.nodes = s.tsTimer.nodes := by rw [timer, TimerState.nodes_cancel]
  refine ⟨fun k tn hk hj harmed ↦ ?_, fun k tn hk hj harmed ↦ ?_, fun hfired i hi ↦ ?_⟩
  · rw [nodes] at hk
    rw [armed_congr (key hk hj)] at harmed
    exact current.trans (h.current k tn hk hj harmed)
  · rw [nodes] at hk ⊢
    rw [armed_congr (key hk hj)] at harmed
    exact h.newest k tn hk hj harmed
  · rw [current] at hi
    rw [TimerState.Fired, nodes] at hfired
    obtain ⟨k, tn, ⟨hk, hw, hkey⟩, hj, rfl⟩ := h.live hfired i hi
    exact ⟨k, tn, ⟨by rw [nodes, hk], hw, (key hk hj).trans hkey⟩, hj, rfl⟩

/-- A node moves on without arming anything; a live one stays live or fires. -/
theorem Timed.setStage (h : s.Timed c) {k : Nat} {tn : TimerNode Nat ClosePc}
    {p : TimerStage ClosePc} (node : s.tsTimer.nodes k = some tn)
    (armed : s.armed tn = false → s.armed { tn with stage := p } = false)
    (fired : tn.stage.fired = true → p.fired = true)
    (live : tn.stage.waiting = true → s.tsTimer.tmIdStateMap tn.tnId = true →
      p.waiting = true ∨ p.fired = true)
    (current : t.currentId c = s.currentId c) (timer : t.tsTimer = s.tsTimer.setStage k p) :
    t.Timed c := by
  have self : t.tsTimer.nodes k = some { tn with stage := p } := by
    rw [timer, TimerState.nodes_setStage, if_pos rfl, node, Option.map_some]
  have other {k' tn'} (hne : k' ≠ k) (hk' : s.tsTimer.nodes k' = some tn') :
      t.tsTimer.nodes k' = some tn' := by
    rw [timer, TimerState.nodes_setStage, if_neg hne, hk']
  have old {k' tn'} (hk' : t.tsTimer.nodes k' = some tn') :
      ∃ tn₀, s.tsTimer.nodes k' = some tn₀ ∧ tn'.tnId = tn₀.tnId ∧ tn'.job = tn₀.job ∧
        (t.armed tn' = true → s.armed tn₀ = true) := by
    rw [armed_congr (s := s) (by rw [timer]; rfl)]
    by_cases hne : k' = k
    · subst hne
      obtain rfl := Option.some.inj (hk'.symm.trans self)
      refine ⟨tn, node, rfl, rfl, fun harmed ↦ ?_⟩
      by_contra hold
      rw [armed (by simpa using hold)] at harmed
      cases harmed
    · rw [timer, TimerState.nodes_setStage, if_neg hne] at hk'
      exact ⟨tn', hk', rfl, rfl, fun harmed ↦ harmed⟩
  refine ⟨fun k' tn' hk' hj harmed ↦ ?_, fun k' tn' hk' hj harmed k'' tn'' hk'' hj'' ↦ ?_,
    fun hfired i hi ↦ ?_⟩
  · obtain ⟨tn₀, h₀, hid, hj₀, harmed₀⟩ := old hk'
    rw [current, hid]
    exact h.current k' tn₀ h₀ (hj₀ ▸ hj) (harmed₀ harmed)
  · obtain ⟨tn₀, h₀, -, hj₀, harmed₀⟩ := old hk'
    obtain ⟨tn₁, h₁, -, hj₁, -⟩ := old hk''
    exact h.newest k' tn₀ h₀ (hj₀ ▸ hj) (harmed₀ harmed) k'' tn₁ h₁ (hj₁ ▸ hj'')
  · rw [current] at hi
    have hfired₀ : ¬ s.tsTimer.Fired c := by
      rintro ⟨k', tn', hk', hj', hf⟩
      by_cases hne : k' = k
      · subst hne
        obtain rfl := Option.some.inj (hk'.symm.trans node)
        exact hfired ⟨k', _, self, hj', fired hf⟩
      · exact hfired ⟨k', tn', other hne hk', hj', hf⟩
    obtain ⟨k', tn', ⟨hk', hw, hkey⟩, hj', rfl⟩ := h.live hfired₀ i hi
    by_cases hne : k' = k
    · subst hne
      obtain rfl := Option.some.inj (hk'.symm.trans node)
      rcases live hw hkey with hw' | hf
      · exact ⟨k', _, ⟨self, hw', by rw [timer]; exact hkey⟩, hj', rfl⟩
      · exact absurd ⟨k', _, self, hj', hf⟩ hfired
    · exact ⟨k', tn', ⟨other hne hk', hw, by rw [timer]; exact hkey⟩, hj', rfl⟩

/-! ### Steps -/

/-- The acceptor's thread holds an id only of the connection it is adding. -/
theorem acceptor_conn_of_newId {pc : AcceptPc} {o : Option Int} (h : pc.newId c = some o) :
    pc.conn = some c := by
  cases pc with
  | addNewTcpConn d p => cases p <;> simp_all [AcceptPc.newId, AcceptPc.conn]
  | _ => simp_all [AcceptPc.newId, AcceptPc.conn]

/-- A loop's thread holds an id only inside a message that has read the stored one. -/
theorem pastRead_of_newId {pc : IoPc} {o : Option Int} (h : pc.newId c = some o) :
    pc.pastRead = some c := by
  unfold IoPc.newId at h
  split at h
  · simp only [Option.ite_none_right_eq_some] at h
    exact congrArg some h.1
  · simp only [Option.ite_none_right_eq_some] at h
    exact congrArg some h.1
  · cases h

/-- A thread's move in between two messages, or inside one, makes no id. -/
theorem IoMove.newId {l : Nat} {pc pc' : IoPc} (h : IoMove s l a pc pc') (c : Nat) :
    pc'.newId c = pc.newId c := by
  cases h <;> rfl

/-- A move of a node arms nothing, and a live node stays live or fires. -/
theorem TimerMove.timed {k : Nat} {tn : TimerNode Nat ClosePc} {stage : TimerStage ClosePc}
    (h : TimerMove s k tn a stage) : (tn.stage.fired = true → stage.fired = true) ∧
      (tn.stage.waiting = true → s.tsTimer.tmIdStateMap tn.tnId = true →
        stage.waiting = true ∨ stage.fired = true) := by
  cases h with
  | expire at_ => exact ⟨by simp [at_, TimerStage.fired], fun _ _ ↦ Or.inl rfl⟩
  | pass at_ key => exact ⟨fun _ ↦ rfl, fun _ _ ↦ Or.inr rfl⟩
  | drop at_ key => exact ⟨by simp [at_, TimerStage.fired], by simp [key]⟩
  | post at_ => exact ⟨fun _ ↦ rfl, fun _ _ ↦ Or.inr rfl⟩
  | begin at_ => exact ⟨fun _ ↦ rfl, fun _ _ ↦ Or.inr rfl⟩
  | done at_ => exact ⟨fun _ ↦ rfl, fun _ _ ↦ Or.inr rfl⟩

/-- An accepted connection keeps what holds of its timers. -/
theorem Rearmed.timed_step (h : s.Rearmed) (hok : s.RearmsInTime a) (hstep : Step s a t)
    (hc : c < s.connCount) : t.Timed c := by
  have old := h.timed c hc
  have numbered := h.ids.numbered
  have loop := hstep.tcLoop hc
  have same (acceptor : t.acceptor.newId c = s.acceptor.newId c)
      (io : ∀ l, (t.io l).newId c = (s.io l).newId c)
      (id : (t.conns c).tcTimerId = (s.conns c).tcTimerId) : t.currentId c = s.currentId c :=
    currentId_congr acceptor io loop id
  have own {l d p batch} (at_ : s.io l = .message d p batch) : (s.conns d).tcLoop = l :=
    (h.known.own l d (by rw [at_]; rfl)).2
  cases hstep with
  | accept fd idle fresh started =>
    refine old.congr (same ?_ (fun _ ↦ rfl) ?_) rfl
    · rw [acceptConn_acceptor, idle]
      exact if_neg (by omega)
    · rw [acceptConn_conns, Function.update_of_ne (by omega)]
  | addTask ok d at_ => exact old.congr (same (by rw [at_]; rfl) (fun _ ↦ rfl) rfl) rfl
  | addTaskCtl ok d l op fd ev at_ =>
    exact old.congr (same (by rw [at_]; rfl) (fun _ ↦ rfl) rfl) rfl
  | acceptAdd ok d p at_ =>
    have io (l) : (((s.addStmt d p).setAcceptor ((s.addNext p).elim .idle
        (.addNewTcpConn d))).io l).newId c = (s.io l).newId c := by
      rw [setAcceptor_io, addStmt_io]
    cases p with
    | runAfter =>
      by_cases hd : d = c
      · subst hd
        refine old.runAfter_self numbered hok.bound ?_ ?_ rfl
        · rw [currentId, at_]
          simp [AcceptPc.newId]
        · simp [currentId, AcceptPc.newId, addNext]
      · exact old.runAfter_other numbered hok.bound hd
          (same (by simp [at_, AcceptPc.newId, addNext, hd]) io rfl) rfl
    | setTimerId i =>
      by_cases hd : d = c
      · subst hd
        -- no message of the connection can have come past reading the old id
        have hio (l) : (s.io l).newId d = none := by
          by_contra hne
          obtain ⟨o, ho⟩ := Option.ne_none_iff_exists'.mp hne
          have := h.stored l d (pastRead_of_newId ho)
          simp [at_, AcceptPc.newId] at this
        refine old.congr ?_ rfl
        simp [currentId, AcceptPc.newId, addNext, at_, addStmt, hio]
      · refine old.congr (same (by simp [at_, AcceptPc.newId, addNext, hd]) io ?_) rfl
        rw [setAcceptor_conns, tcTimerId_addStmt]
        exact if_neg (Ne.symm hd)
    | emplaceBack => exact old.congr (same (by rw [at_]; rfl) io rfl) rfl
  | io l a pc pc' at_ move =>
    exact old.congr (same rfl (newId_setIo rfl (by rw [at_, move.newId])) rfl) rfl
  | abort l fd events batch at_ missing => exact old.congr (same rfl (fun _ ↦ rfl) rfl) rfl
  | cancel l d i batch at_ =>
    by_cases hd : d = c
    · subst hd
      have hacc := h.stored l d (by rw [at_]; rfl)
      refine old.cancel_self ?_ ?_ ?_ rfl
      · rw [currentId, hacc, own at_, at_, h.cancel l d i batch at_]
        rfl
      · intro k tn hk hj
        exact hok.waiting d (by simp [cancelsTimer, at_]) k (numbered k tn hk).1 tn hk hj
      · simp [currentId, hacc, own at_, IoPc.newId]
    · refine old.cancel_other (i := i) ?_ (same rfl (newId_setIo rfl ?_) rfl) rfl
      · intro k tn hk hid hj
        exact hd ((h.ids.job_of_cancel at_ hk hid).symm.trans hj)
      · rw [at_]
        exact if_neg hd
  | messageAdd l d p batch at_ =>
    have acceptor {pc} : ((s.addStmt d p).setIo l pc).acceptor.newId c = s.acceptor.newId c := by
      rw [setIo_acceptor, addStmt_acceptor]
    have hacc : d = c → s.acceptor.newId c = none := by
      rintro rfl
      exact h.stored l d (by rw [at_]; rfl)
    cases p with
    | runAfter =>
      by_cases hd : d = c
      · subst hd
        refine old.runAfter_self numbered hok.bound ?_ ?_ rfl
        · rw [currentId, hacc rfl, own at_, at_]
          simp [IoPc.newId]
        · rw [currentId, acceptor, hacc rfl, loop, own at_, setIo_io, Function.update_self]
          simp [IoPc.newId, addNext]
      · exact old.runAfter_other numbered hok.bound hd (same acceptor
          (newId_setIo rfl (by simp [at_, IoPc.newId, addNext, hd])) rfl) rfl
    | setTimerId i =>
      by_cases hd : d = c
      · subst hd
        refine old.congr ?_ rfl
        rw [currentId, currentId, acceptor, hacc rfl, loop, own at_, at_, setIo_io,
          Function.update_self, setIo_conns, tcTimerId_addStmt]
        simp [IoPc.newId, addNext]
      · refine old.congr (same acceptor
          (newId_setIo rfl (by simp [at_, IoPc.newId, addNext, hd])) ?_) rfl
        rw [setIo_conns, tcTimerId_addStmt]
        exact if_neg (Ne.symm hd)
    | emplaceBack =>
      exact old.congr (same acceptor (newId_setIo rfl (by rw [at_]; rfl)) rfl) rfl
  | send l e d len batch at_ known =>
    refine old.congr (same rfl (newId_setIo rfl (by rw [at_]; rfl)) ?_) rfl
    exact tcTimerId_modConn (f := fun tc ↦ { tc with tcObufLength := tc.tcObufLength + len }) rfl c
  | sendFails l d len => exact old
  | obuf a d n =>
    refine old.congr (same rfl (fun _ ↦ rfl) ?_) rfl
    exact tcTimerId_modConn (f := fun tc ↦ { tc with tcObufLength := n }) rfl c
  | sendCtl l ok e l' op fd ev batch at_ =>
    exact old.congr (same rfl (newId_setIo rfl (by rw [at_]; rfl)) rfl) rfl
  | writeDel l d op ev batch at_ drained call =>
    exact old.congr (same rfl (newId_setIo rfl (by rw [at_]; rfl)) rfl) rfl
  | writeCtl l ok d l' op fd ev batch at_ =>
    exact old.congr (same rfl (newId_setIo rfl (by rw [at_]; rfl)) rfl) rfl
  | hupMap l fd batch at_ =>
    exact old.congr (same rfl (newId_setIo rfl (by rw [at_]; rfl)) rfl) rfl
  | hupCtl l ok fd batch at_ =>
    exact old.congr (same rfl (newId_setIo rfl (by rw [at_]; rfl)) rfl) rfl
  | close l d p batch at_ body =>
    refine old.congr (same ?_ (newId_setIo (closeStmt_io s d p) (by rw [at_]; rfl))
      (tcTimerId_closeStmt d p c)) (closeStmt_tsTimer s d p)
    rw [setIo_acceptor, closeStmt_acceptor]
  | userCloseStmt l e d p batch at_ body =>
    refine old.congr (same ?_ (newId_setIo (closeStmt_io s d p) (by rw [at_]; rfl))
      (tcTimerId_closeStmt d p c)) (closeStmt_tsTimer s d p)
    rw [setIo_acceptor, closeStmt_acceptor]
  | timer k tn a stage node move =>
    exact old.setStage node move.armed move.timed.1 move.timed.2
      (same rfl (fun _ ↦ rfl) rfl) rfl
  | timerClose k tn p node at_ body =>
    refine old.setStage (p := .running (s.closeNext tn.job p)) node ?_ (fun _ ↦ rfl) ?_
      (same ?_ ?_ (tcTimerId_closeStmt tn.job p c)) ?_
    · intro _
      simp [Server.armed, closeNext_ne_enter]
    · intro hw
      rw [at_] at hw
      cases hw
    · rw [setStage_acceptor, closeStmt_acceptor]
    · intro l
      rw [setStage_io, closeStmt_io]
    · rw [setStage_tsTimer, closeStmt_tsTimer]

/-- A message comes past reading the timer id in the step that reads it. -/
theorem Step.pastRead (hstep : Step s a t) {l : Nat} (h : (t.io l).pastRead = some c) :
    (s.io l).pastRead = some c ∨ s.readsTimerId a = some c := by
  have moved {u : Server} {l₀ : Nat} {pc pc' : IoPc}
      (h : ((u.setIo l₀ pc').io l).pastRead = some c) := io_of_setIo (s := s) (p := pc)
        (P := fun pc ↦ pc.pastRead = some c) h
  cases hstep with
  | acceptAdd ok d p at_ =>
    rw [setAcceptor_io, addStmt_io] at h
    exact Or.inl h
  | io l₀ a pc pc' at_ move =>
    cases move with
    | getTimerId d batch =>
      rw [setIo_io] at h
      by_cases hl : l = l₀
      · rw [hl, Function.update_self] at h
        exact Or.inr (by simpa [readsTimerId, at_, IoPc.pastRead] using h)
      · rw [Function.update_of_ne hl] at h
        exact Or.inl h
    | userClose d e batch known => exact Or.inl (moved h rfl at_ id)
    | endMessage d batch => exact Or.inl (moved h rfl at_ id)
    | userClosed d e batch => exact Or.inl (moved h rfl at_ id)
    | _ => exact Or.inl (moved h rfl at_ nofun)
  | cancel l₀ d i batch at_ => exact Or.inl (moved h rfl at_ id)
  | messageAdd l₀ d p batch at_ =>
    refine Or.inl (moved h (addStmt_io s d p) at_ ?_)
    cases p <;> exact id
  | send l₀ e d len batch at_ known => exact Or.inl (moved h rfl at_ id)
  | sendCtl l₀ ok e l' op fd ev batch at_ => exact Or.inl (moved h rfl at_ id)
  | writeDel l₀ d op ev batch at_ drained call => exact Or.inl (moved h rfl at_ nofun)
  | writeCtl l₀ ok d l' op fd ev batch at_ => exact Or.inl (moved h rfl at_ nofun)
  | hupMap l₀ fd batch at_ => exact Or.inl (moved h rfl at_ nofun)
  | hupCtl l₀ ok fd batch at_ => exact Or.inl (moved h rfl at_ nofun)
  | close l₀ d p batch at_ body => exact Or.inl (moved h (closeStmt_io s d p) at_ nofun)
  | userCloseStmt l₀ e d p batch at_ body => exact Or.inl (moved h (closeStmt_io s d p) at_ id)
  | timerClose k tn p node at_ body =>
    rw [setStage_io, closeStmt_io] at h
    exact Or.inl h
  | _ => exact Or.inl h

/-- The acceptor's thread begins to make a first timer only of a new connection. -/
theorem Step.newId_none (hstep : Step s a t) (hc : c < s.connCount)
    (h : s.acceptor.newId c = none) : t.acceptor.newId c = none := by
  cases hstep.acceptorMove with
  | stay same => rwa [same]
  | accept idle after count =>
    rw [after]
    exact if_neg (by omega)
  | addTask d l op fd ev at_ after =>
    rw [at_] at h
    rwa [after]
  | addTaskCtl d l op fd ev at_ after =>
    rw [at_] at h
    rwa [after]
  | acceptAdd d p at_ after timer =>
    rw [at_] at h
    rw [after]
    cases p with
    | runAfter =>
      have hd : d ≠ c := by simpa [AcceptPc.newId] using h
      exact if_neg hd
    | setTimerId i => rfl
    | emplaceBack => rfl

/-- A message of the connection is inside its callback. -/
theorem own_of_pastRead {pc : IoPc} (h : pc.pastRead = some c) : pc.own = some c := by
  unfold IoPc.pastRead at h
  split at h
  · cases h
  · exact h
  · exact h
  · cases h

/-- Once a message has read the timer id, its connection is known and the first id stored. -/
theorem Rearmed.stored_before (h : s.Rearmed) (hok : s.RearmsInTime a) (hstep : Step s a t)
    {l : Nat} (hp : (t.io l).pastRead = some c) :
    c < s.connCount ∧ s.acceptor.newId c = none := by
  rcases hstep.pastRead hp with hold | hreads
  · exact ⟨(h.known.own l c (own_of_pastRead hold)).1, h.stored l c hold⟩
  · refine ⟨?_, hok.stored c hreads⟩
    unfold readsTimerId at hreads
    split at hreads
    · split at hreads
      · next d batch hio => exact (h.known.own _ c (by rw [hio]; exact hreads)).1
      · cases hreads
    · cases hreads

/-- The timers of a connection that has just been accepted. -/
theorem Rearmed.timed_accept (h : s.Rearmed) (fd : Int) :
    (s.acceptConn fd).Timed s.connCount := by
  have fresh {k tn} (hk : s.tsTimer.nodes k = some tn) (hj : tn.job = s.connCount) : False :=
    Nat.lt_irrefl _ (hj ▸ h.known.node k tn hk)
  refine ⟨fun k tn hk hj _ ↦ (fresh hk hj).elim, fun k tn hk hj _ ↦ (fresh hk hj).elim,
    fun _ i hi ↦ ?_⟩
  simp [currentId, AcceptPc.newId] at hi

/-- A message that is about to cancel has read the id that is stored. -/
theorem Rearmed.cancel_step (h : s.Rearmed) (hok : s.RearmsInTime a) (hstep : Step s a t)
    {l : Nat} {i : Int} {batch : List (Int × Mask)}
    (at_ : t.io l = .message c (.cancel i) batch) : i = (t.conns c).tcTimerId := by
  obtain ⟨hi, hown, hnot⟩ : i = (s.conns c).tcTimerId ∧ (s.io l).own = some c ∧
      ∀ j batch', s.io l ≠ .message c (.addNewTcpConn (.setTimerId j)) batch' := by
    rcases hstep.io_message at_ with hold | ⟨hread, hio⟩
    · exact ⟨h.cancel l c i batch hold, by rw [hold]; rfl,
        fun j batch' he ↦ by rw [hold] at he; cases he⟩
    · exact ⟨hread, by rw [hio]; rfl, fun j batch' he ↦ by rw [hio] at he; cases he⟩
  obtain ⟨hc, hloop⟩ := h.known.own l c hown
  rcases hstep.tcTimerId c with hold | ⟨hnew, -⟩ | hacc | ⟨l', batch', hmsg⟩
  · rw [hold, hi]
  · omega
  · have hstored := (h.stored_before hok hstep (by rw [at_]; rfl)).2
    rw [hacc] at hstored
    simp [AcceptPc.newId] at hstored
  · obtain rfl : l' = l := (h.known.own l' c (by rw [hmsg]; rfl)).2.symm.trans hloop
    exact absurd hmsg (hnot _ _)

/-- An admitted step keeps the invariant. -/
theorem Rearmed.step (h : s.Rearmed) (hok : s.RearmsInTime a) (hstep : Step s a t) :
    t.Rearmed where
  known := h.known.step hstep
  ids := h.ids.step hstep hok.bound
  stored l c hp :=
    have hbefore := h.stored_before hok hstep hp
    hstep.newId_none hbefore.1 hbefore.2
  cancel l c i batch at_ := h.cancel_step hok hstep at_
  timed c hc := by
    by_cases hlt : c < s.connCount
    · exact h.timed_step hok hstep hlt
    · cases hstep with
      | accept fd idle fresh started =>
        rw [acceptConn_connCount] at hc
        obtain rfl : c = s.connCount := by omega
        exact h.timed_accept fd
      | acceptAdd ok d p at_ =>
        rw [setAcceptor_connCount, addStmt_connCount] at hc
        exact absurd hc hlt
      | messageAdd l d p batch at_ =>
        rw [setIo_connCount, addStmt_connCount] at hc
        exact absurd hc hlt
      | close l d p batch at_ body =>
        rw [setIo_connCount, closeStmt_connCount] at hc
        exact absurd hc hlt
      | userCloseStmt l e d p batch at_ body =>
        rw [setIo_connCount, closeStmt_connCount] at hc
        exact absurd hc hlt
      | timerClose k tn p node at_ body =>
        rw [setStage_connCount, closeStmt_connCount] at hc
        exact absurd hc hlt
      | _ => exact absurd hc hlt

/-- While no thread is replacing its timer, the current id of a connection is the stored one. -/
theorem currentId_of_idle (acceptor : s.acceptor.conn ≠ some c)
    (io : ∀ l, (s.io l).processing ≠ some c) : s.currentId c = some (s.conns c).tcTimerId := by
  have hacc : s.acceptor.newId c = none := by
    by_contra hne
    obtain ⟨o, ho⟩ := Option.ne_none_iff_exists'.mp hne
    exact acceptor (acceptor_conn_of_newId ho)
  have hio : (s.io (s.conns c).tcLoop).newId c = none := by
    by_contra hne
    obtain ⟨o, ho⟩ := Option.ne_none_iff_exists'.mp hne
    refine io (s.conns c).tcLoop ?_
    have hpast := pastRead_of_newId ho
    unfold IoPc.pastRead at hpast
    split at hpast <;> simp_all [IoPc.processing]
  rw [currentId, hacc, hio]
  rfl

/-- In every run whose steps all meet the condition: a connection that is added, has no message
in progress and for which no timer has fired, has exactly one timer, whose id is stored; and
only the timer made last for a connection can close it. -/
theorem one_timer_per_connection {n : Nat} {elEvfd : Nat → Int}
    (h : ReachBy Server.step RearmsInTime (init n elEvfd) s) (hc : c < s.connCount) :
    (s.acceptor.conn ≠ some c → (∀ l, (s.io l).processing ≠ some c) → ¬ s.tsTimer.Fired c →
      s.OneTimer c) ∧ s.NewestCloses c := by
  have hinv : s.Rearmed := h.invariant (rearmed_init n elEvfd) fun s a t hs hok hstep ↦
    hs.step hok (step_inversion hstep)
  have htimed := hinv.timed c hc
  refine ⟨fun hacc hio hfired ↦ ?_, fun k tn hk hj hdue ↦
    htimed.newest k tn hk hj (armed_iff.mpr (Or.inr hdue))⟩
  have hcurrent := currentId_of_idle hacc hio
  obtain ⟨k, tn, hlive, hj, hid⟩ := htimed.live hfired _ hcurrent
  refine ⟨k, tn, hlive, hj, hid, fun k' tn' hlive' hj' ↦ ?_⟩
  have harmed := htimed.current k' tn' hlive'.1 hj' (armed_iff.mpr (Or.inl hlive'.2))
  have hid' : tn'.tnId = tn.tnId :=
    (Option.some.inj (harmed.symm.trans hcurrent)).trans hid.symm
  have hbound := hinv.ids.bound
  exact hinv.ids.numbered.id_inj (by omega) hlive'.1 hlive.1 hid'

/-- After a run of one loop that ends between two callbacks with no node fired, no message is
being processed and no timer has fired. -/
theorem settled_of_run {as : List ServerAction}
    (hs : run Server.step (init 1 fun _ ↦ 3) as = some s) (threads : s.tsThreadNum = 1)
    (io : s.io 0 = .lookup [])
    (waiting : ∀ k < s.tsTimer.tmCount, ∀ tn ∈ s.tsTimer.nodes k, tn.stage.fired = false) :
    (∀ l, (s.io l).processing ≠ some c) ∧ ¬ s.tsTimer.Fired c := by
  have hinv : s.NoOtherThread ∧ s.tsTimer.Numbered :=
    (reach_of_run hs).invariant (P := fun s ↦ s.NoOtherThread ∧ s.tsTimer.Numbered)
      ⟨noOtherThread_init _ _, TimerState.numbered_init⟩ fun _ _ _ hi _ hstep ↦
        ⟨hi.1.step (step_inversion hstep), (step_inversion hstep).numbered hi.2⟩
  refine ⟨fun l ↦ ?_, ?_⟩
  · by_cases hl : l = 0
    · rw [hl, io]
      exact nofun
    · rw [hinv.1 l (by omega)]
      exact nofun
  · rintro ⟨k, tn, hk, -, hf⟩
    rw [waiting k (hinv.2 k tn hk).1 tn hk] at hf
    cases hf

/-- A connection handles one message after it was added. -/
def messageAfterAccept : List ServerAction :=
  .accept 7 :: List.replicate 5 (.acceptor true) ++
    [.wait 0 [(7, EPOLLIN)], .lookup 0, .readData 0] ++ List.replicate 5 (.message 0) ++
      [.endMessage 0, .endMessage 0]

/-- After its message the connection has one timer. -/
theorem one_timer_after_message :
    ∃ s, run Server.step (init 1 fun _ ↦ 3) messageAfterAccept = some s ∧ s.OneTimer 0 ∧
      s.NewestCloses 0 := by
  have hrun : (run Server.step (init 1 fun _ ↦ 3) messageAfterAccept).isSome := by
    decide +kernel
  have hfacts : ∀ t ∈ run Server.step (init 1 fun _ ↦ 3) messageAfterAccept,
      t.tsThreadNum = 1 ∧ t.io 0 = .lookup [] ∧ t.acceptor.conn ≠ some 0 ∧ 0 < t.connCount ∧
        ∀ k < t.tsTimer.tmCount, ∀ tn ∈ t.tsTimer.nodes k, tn.stage.fired = false := by
    decide +kernel
  obtain ⟨s, hs⟩ := Option.isSome_iff_exists.mp hrun
  obtain ⟨hthreads, hio, hacceptor, hcount, hwaiting⟩ := hfacts s hs
  obtain ⟨hidle, hfired⟩ := settled_of_run (c := 0) hs hthreads hio hwaiting
  have htimer := one_timer_per_connection (reachBy_of_run hs (by decide +kernel)) hcount
  exact ⟨s, hs, htimer.1 hacceptor hidle hfired, htimer.2⟩

/-- A message is handled between the two halves of the acceptor's work on its connection. -/
def messageInsideAccept : List ServerAction :=
  .accept 7 :: List.replicate 2 (.acceptor true) ++
    [.wait 0 [(7, EPOLLIN)], .lookup 0, .readData 0] ++ List.replicate 5 (.message 0) ++
      [.endMessage 0, .endMessage 0] ++ List.replicate 3 (.acceptor true)

/-- A message that comes before the first timer leaves the connection with two. -/
theorem early_message_leaves_two_timers :
    ¬ ∀ (n : Nat) (elEvfd : Nat → Int) (s : Server) (c : Nat),
      Reach Server.step (init n elEvfd) s → c < s.connCount → (s.conns c).closes = 0 →
        s.acceptor.conn ≠ some c → (∀ l, (s.io l).processing ≠ some c) →
          ¬ s.tsTimer.Fired c → s.OneTimer c := by
  intro h
  have hrun : (run Server.step (init 1 fun _ ↦ 3) messageInsideAccept).isSome := by
    decide +kernel
  have hfacts : ∀ t ∈ run Server.step (init 1 fun _ ↦ 3) messageInsideAccept,
      (t.tsThreadNum = 1 ∧ t.io 0 = .lookup [] ∧ t.acceptor.conn ≠ some 0 ∧ 0 < t.connCount ∧
        (t.conns 0).closes = 0 ∧
          ∀ k < t.tsTimer.tmCount, ∀ tn ∈ t.tsTimer.nodes k, tn.stage.fired = false) ∧
      t.tsTimer.nodes 0 = some ⟨0, 0, .queued⟩ ∧ t.tsTimer.nodes 1 = some ⟨1, 0, .queued⟩ ∧
        t.tsTimer.tmIdStateMap 0 = true ∧ t.tsTimer.tmIdStateMap 1 = true := by
    decide +kernel
  obtain ⟨s, hs⟩ := Option.isSome_iff_exists.mp hrun
  obtain ⟨⟨hthreads, hio, hacceptor, hcount, hcloses, hwaiting⟩, hn0, hn1, hkey0, hkey1⟩ :=
    hfacts s hs
  obtain ⟨hidle, hfired⟩ := settled_of_run (c := 0) hs hthreads hio hwaiting
  obtain ⟨k, tn, -, -, -, hunique⟩ :=
    h 1 (fun _ ↦ 3) s 0 (reach_of_run hs) hcount hcloses hacceptor hidle hfired
  have h0 := hunique 0 _ ⟨hn0, rfl, hkey0⟩ rfl
  have h1 := hunique 1 _ ⟨hn1, rfl, hkey1⟩ rfl
  omega

end Server

end ConcurrentServer.Net
