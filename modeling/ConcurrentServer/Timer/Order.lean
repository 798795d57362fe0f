import ConcurrentServer.Timer.Nodes

/-!
# The order in which timers leave the queue

`src/timer/timer.h:22–32, 124–158`. `operator<` is reversed, so that `tm_queue.top()` is a node
with the earliest time point; the tick thread holds `tm_mutex` from there until it has popped that
node, so that no insertion comes in between. The distance to the time point is cut off to whole
milliseconds, and less than one of them counts as due.
-/

namespace ConcurrentServer.Timer
open ConcurrentServer.Base

namespace TimerSystem

variable {s t u : TimerSystem} {a : TimerAction} {n : TimerNode}

/-! ### What is popped -/

/-- A step takes node `n` out of `tm_queue`. -/
def Leaves (n : TimerNode) (s t : TimerSystem) : Prop := t.tmQueue.count n < s.tmQueue.count n

/-- In every run from `s`, node `m` has left `tm_queue` when node `n` does. -/
def LeavesBefore (s : TimerSystem) (m n : TimerNode) : Prop :=
  ∀ as a t u, run step s as = some t → t.step a = some u → Leaves n t u →
    ∃ as₁ b as₂ v w, as = as₁ ++ b :: as₂ ∧ run step s as₁ = some v ∧ v.step b = some w ∧
      Leaves m v w

/-- The node that is about to be popped is one of the earliest. -/
def PopsTop (s : TimerSystem) : Prop := ∀ n, s.tick = .pop n → IsTop n s.tmQueue

/-- Every step. -/
theorem PopsTop.step (h : s.PopsTop) (hx : s.Exclusive) (hstep : Step s a t) : t.PopsTop := by
  cases hstep with
  | push k now call m at_ =>
    intro n hpop
    have held : s.tick.holds = true := by
      rw [show s.tick = .pop n from hpop]
      rfl
    have hcall := hx.not_call held k
    rw [at_] at hcall
    cases hcall
  | tickMove a pc holder move =>
    intro n hpop
    rw [show pc = .pop n from hpop] at move
    cases move with
    | due _ at_ top => exact top
  | notifyCall | notifyTick => exact fun n hpop ↦ h n (eq_pop_of_notified hpop)
  | pop | drop | rearm | postTask | notify => exact nofun
  | run | fetchAdd | emplace | lockCall | unlockCall | cancel | cancelTest | cancelErase | cancelRet
  | worker | destructor | destroyPool => exact h

/-- In every reached state. -/
theorem popsTop_of_reach (h : Reach step init s) : s.PopsTop := by
  have hboth : s.Exclusive ∧ s.PopsTop := by
    apply h.invariant (P := fun s : TimerSystem ↦ s.Exclusive ∧ s.PopsTop)
    · exact ⟨exclusive_init, nofun⟩
    · rintro s a t ⟨hx, hs⟩ - hstep
      have hmove := step_inversion hstep
      exact ⟨hx.step hmove, hs.step hx hmove⟩
  exact hboth.2

/-- Only the tick thread takes nodes out of the queue, one at a time. -/
theorem Leaves.eq_pop (hleaves : Leaves n s t) (hstep : Step s a t) : s.tick = .pop n := by
  cases hstep with
  | pop now m at_ =>
    have hlt : (s.tmQueue.erase m).count n < s.tmQueue.count n := hleaves
    rw [List.count_erase] at hlt
    by_cases hm : m = n
    · rw [at_, hm]
    · rw [if_neg (by simpa using hm)] at hlt
      omega
  | push k now call m at_ =>
    have hlt : (m :: s.tmQueue).count n < s.tmQueue.count n := hleaves
    rw [List.count_cons] at hlt
    omega
  | rearm now m late at_ =>
    have hlt : ((m.rearmed now).toList ++ s.tmQueue).count n < s.tmQueue.count n := hleaves
    rw [List.count_append] at hlt
    omega
  | _ => exact absurd hleaves (Nat.lt_irrefl _)

/-- While an earlier node is in the queue, a later one does not leave it. -/
theorem not_mem_of_leaves (h : Reach step init s) (hstep : s.step a = some t)
    (hleaves : Leaves n s t) {m : TimerNode} (earlier : m.tnTmPoint < n.tnTmPoint) :
    m ∉ s.tmQueue := by
  intro hm
  have htop := popsTop_of_reach h n (hleaves.eq_pop (step_inversion hstep))
  exact absurd (htop.2 m hm) (Int.not_le.mpr earlier)

/-- The earlier of two nodes leaves first. -/
theorem leavesBefore (h : Reach step init s) {m : TimerNode} (hm : m ∈ s.tmQueue)
    (earlier : m.tnTmPoint < n.tnTmPoint) : s.LeavesBefore m n := by
  intro as a t u hrun hstep hleaves
  have hgone := not_mem_of_leaves (h.trans (reach_of_run hrun)) hstep hleaves earlier
  obtain ⟨as₁, b, as₂, v, w, has, hrun₁, hb, hv, hw⟩ :=
    exists_step_of_run (P := fun t : TimerSystem ↦ m ∈ t.tmQueue) hrun hm hgone
  refine ⟨as₁, b, as₂, v, w, has, hrun₁, hb, ?_⟩
  unfold Leaves
  rw [List.count_eq_zero.mpr hw]
  exact List.count_pos_iff.mpr hv

/-! ### What is posted -/

/-- A posting of the tick thread. -/
structure Posting where
  /-- The node, as it was popped. -/
  node : TimerNode
  callback : Nat
  /-- The reading of the clock by which the node was due. -/
  test : Int
  /-- The reading of the clock at the posting. -/
  now : Int
  deriving DecidableEq, Repr

/-- What the tick thread has last looked at, with the reading of the clock, and its postings. -/
structure Postings where
  top : Option (TimerNode × Int)
  posted : List Posting
  deriving DecidableEq, Repr

/-- What a step adds to the notes. -/
def note (s : TimerSystem) : TimerAction → TimerSystem → Postings → Postings
  | .tickTop n now, _, g => { g with top := some (n, now) }
  | .tick now, _, g =>
    match s.tick, g.top with
    | .emplace callback _, some (n, test) =>
      { g with posted := g.posted ++ [⟨n, callback, test, now⟩] }
    | _, _ => g
  | _, _, g => g

/-- A posting of the callback of a node that was due, but for less than a millisecond. -/
structure Posting.OnTime (p : Posting) : Prop where
  callback : p.callback = p.node.tnCallback
  test : p.node.tnTmPoint < p.test + nsPerMs
  now : p.test ≤ p.now → p.node.tnTmPoint < p.now + nsPerMs

/-- What the tick thread is at work on is what it has last looked at, and was due. -/
def Serves (top : Option (TimerNode × Int)) : TickPc → Prop
  | .pop n | .isKeyExist n _ | .rearm n _ =>
    ∃ test, top = some (n, test) ∧ n.tnTmPoint < test + nsPerMs
  | .unlock callback _ | .post callback _ | .emplace callback _ =>
    ∃ n test, top = some (n, test) ∧ callback = n.tnCallback ∧ n.tnTmPoint < test + nsPerMs
  | .idle | .head | .lock | .empty | .wait | .waiting _ | .top | .waitFor _ | .waitingFor _ _
  | .notify | .done => True

@[simp] theorem serves_notified {top : Option (TimerNode × Int)} (pc : TickPc) :
    Serves top pc.notified ↔ Serves top pc := by
  cases pc <;> rfl

/-- A distance that is cut off to no whole millisecond is less than one. -/
theorem lt_of_tdiv_nonpos {d : Int} (h : ¬ d.tdiv nsPerMs > 0) : d < nsPerMs := by
  have hns : nsPerMs = 1000000 := rfl
  rw [hns] at h ⊢
  by_contra hge
  rw [Int.tdiv_eq_ediv_of_nonneg (by omega)] at h
  omega

/-- What a step does to the tick thread and to what it has posted. -/
inductive Tick (s t : TimerSystem) : TimerAction → Prop
  | tick (now : Int) (moved : s.tickStep now = some t) : Tick s t (.tick now)
  | top (n : TimerNode) (now : Int) (moved : s.tickTopStep n now = some t) :
    Tick s t (.tickTop n now)
  | idle (a : TimerAction) (quiet : ∀ g, note s a t g = g) (after : t.tick = .head)
    (posted : t.posted = s.posted) : Tick s t a
  | other (a : TimerAction) (quiet : ∀ g, note s a t g = g)
    (same : t.tick = s.tick ∨ t.tick = s.tick.notified) (posted : t.posted = s.posted) : Tick s t a

/-- Every step is one of these. -/
theorem tick_of_step (h : s.step a = some t) : Tick s t a := by
  have hstep := (Option.ite_none_left_eq_some.mp h).2
  cases a with
  | tick now => exact .tick now hstep
  | tickTop n now => exact .top n now hstep
  | start =>
    obtain ⟨-, rfl⟩ := (Option.ite_none_right_eq_some.mp hstep).imp_right Option.some.inj
    exact .idle _ (fun _ ↦ rfl) rfl rfl
  | tickNotify who =>
    obtain ⟨-, hmap⟩ := Option.ite_none_right_eq_some.mp hstep
    obtain ⟨pool, -, rfl⟩ := Option.map_eq_some_iff.mp hmap
    exact .idle _ (fun _ ↦ rfl) rfl rfl
  | run | cancel | destroy =>
    obtain ⟨-, rfl⟩ := (Option.ite_none_right_eq_some.mp hstep).imp_right Option.some.inj
    exact .other _ (fun _ ↦ rfl) (Or.inl rfl) rfl
  | runStep k now =>
    replace hstep : s.runStep k now = some t := hstep
    unfold TimerSystem.runStep at hstep
    split at hstep
    · cases hstep
      exact .other _ (fun _ ↦ rfl) (Or.inl rfl) rfl
    · cases hstep
      exact .other _ (fun _ ↦ rfl) (Or.inl rfl) rfl
    · split at hstep
      · cases hstep
        exact .other _ (fun _ ↦ rfl) (Or.inl rfl) rfl
      · cases hstep
    · cases hstep
      exact .other _ (fun _ ↦ rfl) (Or.inl rfl) rfl
    · cases hstep
      exact .other _ (fun _ ↦ rfl) (Or.inr rfl) rfl
    · cases hstep
      exact .other _ (fun _ ↦ rfl) (Or.inl rfl) rfl
    all_goals cases hstep
  | cancelStep c =>
    replace hstep : s.cancelStep c = some t := hstep
    unfold TimerSystem.cancelStep at hstep
    split at hstep <;> cases hstep <;> exact .other _ (fun _ ↦ rfl) (Or.inl rfl) rfl
  | worker w =>
    obtain ⟨pool, -, rfl⟩ := Option.map_eq_some_iff.mp hstep
    exact .other _ (fun _ ↦ rfl) (Or.inl rfl) rfl
  | destructor =>
    replace hstep : s.destructorStep = some t := hstep
    unfold TimerSystem.destructorStep at hstep
    split at hstep
    · cases hstep
      exact .other _ (fun _ ↦ rfl) (Or.inl rfl) rfl
    · cases hstep
      exact .other _ (fun _ ↦ rfl) (Or.inr rfl) rfl
    · split at hstep
      · cases hstep
        exact .other _ (fun _ ↦ rfl) (Or.inl rfl) rfl
      · cases hstep
    · obtain ⟨⟨pool, pc⟩, -, rfl⟩ := Option.map_eq_some_iff.mp hstep
      exact .other _ (fun _ ↦ rfl) (Or.inl rfl) rfl
    · cases hstep
    · cases hstep

/-- The postings so far have been on time, and none is missing. -/
structure PostsNoted (s : TimerSystem) (g : Postings) : Prop where
  serves : Serves g.top s.tick
  all : g.posted.map Posting.callback = s.posted
  onTime : ∀ p ∈ g.posted, p.OnTime

variable {g : Postings}

/-- The tick thread moves on without posting anything. -/
theorem PostsNoted.move (h : s.PostsNoted g) (serves : Serves g.top t.tick)
    (posted : t.posted = s.posted) : t.PostsNoted g :=
  ⟨serves, h.all.trans posted.symm, h.onTime⟩

/-- The tick thread posts a callback. -/
theorem PostsNoted.post (h : s.PostsNoted g) {callback : Nat} {late : Bool}
    (at_ : s.tick = .emplace callback late) {now : Int} (moved : s.tickStep now = some t) :
    t.PostsNoted (note s (.tick now) t g) := by
  have hserves := h.serves
  rw [at_] at hserves
  obtain ⟨n, test, htop, hcallback, hlt⟩ := hserves
  simp only [tickStep, at_] at moved
  obtain ⟨pool, -, rfl⟩ := Option.map_eq_some_iff.mp moved
  simp only [note, at_, htop]
  constructor
  · trivial
  · rw [List.map_append, h.all]
    rfl
  · intro p hp
    rcases List.mem_append.mp hp with hold | hnew
    · exact h.onTime p hold
    · rw [List.mem_singleton.mp hnew]
      exact ⟨hcallback, hlt, fun hle ↦ Int.lt_of_lt_of_le hlt (Int.add_le_add_right hle _)⟩

/-- A statement of the tick thread other than `top()`. -/
theorem PostsNoted.tick (h : s.PostsNoted g) {now : Int} (moved : s.tickStep now = some t) :
    t.PostsNoted (note s (.tick now) t g) := by
  have hserves := h.serves
  cases at_ : s.tick with
  | emplace callback late => exact h.post at_ moved
  | head =>
    simp only [tickStep, at_] at moved
    cases moved
    simp only [note, at_]
    refine h.move ?_ rfl
    dsimp only
    split <;> trivial
  | lock =>
    simp only [tickStep, at_] at moved
    obtain ⟨-, rfl⟩ := (Option.ite_none_right_eq_some.mp moved).imp_right Option.some.inj
    simp only [note, at_]
    exact h.move trivial rfl
  | empty =>
    simp only [tickStep, at_] at moved
    cases moved
    simp only [note, at_]
    refine h.move ?_ rfl
    dsimp only
    split <;> trivial
  | wait | waitFor n =>
    simp only [tickStep, at_] at moved
    cases moved
    simp only [note, at_]
    exact h.move trivial rfl
  | waiting notified | waitingFor n notified =>
    simp only [tickStep, at_] at moved
    obtain ⟨-, rfl⟩ := (Option.ite_none_right_eq_some.mp moved).imp_right Option.some.inj
    simp only [note, at_]
    exact h.move trivial rfl
  | pop n =>
    rw [at_] at hserves
    simp only [tickStep, at_] at moved
    cases moved
    simp only [note, at_]
    exact h.move hserves rfl
  | isKeyExist n late =>
    rw [at_] at hserves
    simp only [tickStep, at_] at moved
    simp only [note, at_]
    split at moved
    · cases moved
      exact h.move hserves rfl
    · cases moved
      exact h.move trivial rfl
  | rearm n late =>
    rw [at_] at hserves
    obtain ⟨test, htop, hlt⟩ := hserves
    simp only [tickStep, at_] at moved
    cases moved
    simp only [note, at_]
    exact h.move ⟨n, test, htop, rfl, hlt⟩ rfl
  | unlock callback late =>
    rw [at_] at hserves
    simp only [tickStep, at_] at moved
    cases moved
    simp only [note, at_]
    exact h.move hserves rfl
  | post callback late =>
    rw [at_] at hserves
    simp only [tickStep, at_] at moved
    obtain ⟨-, rfl⟩ := (Option.ite_none_right_eq_some.mp moved).imp_right Option.some.inj
    simp only [note, at_]
    exact h.move hserves rfl
  | idle | top | notify | done =>
    simp only [tickStep, at_] at moved
    cases moved

/-- `top()` and the test of the distance. -/
theorem PostsNoted.top (h : s.PostsNoted g) {n : TimerNode} {now : Int}
    (moved : s.tickTopStep n now = some t) : t.PostsNoted (note s (.tickTop n now) t g) := by
  obtain ⟨-, rfl⟩ := (Option.ite_none_right_eq_some.mp moved).imp_right Option.some.inj
  refine ⟨?_, h.all, h.onTime⟩
  simp only [note]
  split
  · trivial
  · next hdue =>
    have hlt := lt_of_tdiv_nonpos hdue
    exact ⟨now, rfl, by omega⟩

/-- Every step. -/
theorem PostsNoted.step (h : s.PostsNoted g) (hstep : s.step a = some t) :
    t.PostsNoted (note s a t g) := by
  cases tick_of_step hstep with
  | tick now moved => exact h.tick moved
  | top n now moved => exact h.top moved
  | idle _ quiet after posted =>
    rw [quiet g]
    exact h.move (by rw [after]; trivial) posted
  | other _ quiet same posted =>
    rw [quiet g]
    refine h.move ?_ posted
    cases same with
    | inl hsame =>
      rw [hsame]
      exact h.serves
    | inr hnotified =>
      rw [hnotified, serves_notified]
      exact h.serves

/-- In every reached state. -/
theorem noted_of_reach {s : TimerSystem × Postings}
    (h : Reach (withHistory step note) (init, ⟨none, []⟩) s) : s.1.PostsNoted s.2 := by
  apply h.invariant (P := fun s : TimerSystem × Postings ↦ s.1.PostsNoted s.2)
  · exact ⟨trivial, rfl, nofun⟩
  · intro s a t hs _ hstep
    obtain ⟨hmoved, hnote⟩ := withHistory_eq_some.mp hstep
    rw [hnote]
    exact hs.step hmoved

end TimerSystem

/-- Of two nodes that are in `tm_queue` together the one with the earlier time point leaves it
first, and every posting is of a node whose time point was not a millisecond or more ahead of the
clock. -/
theorem timers_leave_in_order {s : TimerSystem × TimerSystem.Postings}
    (h : Reach (withHistory TimerSystem.step TimerSystem.note) (.init, ⟨none, []⟩) s) :
    (∀ m ∈ s.1.tmQueue, ∀ n ∈ s.1.tmQueue, m.tnTmPoint < n.tnTmPoint → s.1.LeavesBefore m n) ∧
      s.2.posted.map TimerSystem.Posting.callback = s.1.posted ∧
        ∀ p ∈ s.2.posted, p.OnTime := by
  have hnoted := TimerSystem.noted_of_reach h
  exact ⟨fun m hm n _ earlier ↦ TimerSystem.leavesBefore h.forget hm earlier, hnoted.all,
    hnoted.onTime⟩

/-- Of three timers the earliest expires while the clock is still behind it by less than a
millisecond. -/
def earliestOfThree : List TimerAction :=
  .flatten [[.start], runCall 0 (.runAfter 10 false) 0, runCall 1 (.runAfter 5 true) 0,
    runCall 2 (.runAt 7000000) 0, expiry ⟨5000000, 1, 1, 0, true, false, 5⟩ 4000001]

/-- The two others are still in order. -/
theorem earliest_of_three_leaves_first :
    ∃ s, run (withHistory TimerSystem.step TimerSystem.note) (.init, ⟨none, []⟩) earliestOfThree =
        some s ∧
      (∀ m ∈ s.1.tmQueue, ∀ n ∈ s.1.tmQueue, m.tnTmPoint < n.tnTmPoint → s.1.LeavesBefore m n) ∧
        s.2.posted.map TimerSystem.Posting.callback = s.1.posted ∧
          ∀ p ∈ s.2.posted, p.OnTime := by
  have hrun : (run (withHistory TimerSystem.step TimerSystem.note) (.init, ⟨none, []⟩)
      earliestOfThree).isSome := by decide +kernel
  obtain ⟨s, hs⟩ := Option.isSome_iff_exists.mp hrun
  exact ⟨s, hs, timers_leave_in_order (reach_of_run hs)⟩

end ConcurrentServer.Timer
