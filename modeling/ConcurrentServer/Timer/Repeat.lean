import ConcurrentServer.Timer.Nodes

/-!
# Repeated timers

`src/timer/timer.h:96–113, 143–156`. A repeated timer is posted at every expiry, and pushed again
at each one before which its count is positive. So its callback is posted once more than the
count says.
-/

namespace ConcurrentServer.Timer
open ConcurrentServer.Base

namespace TimerSystem

variable {s : TimerSystem}

/-- Run call `k` has made a repeated timer with node `m`, nobody has asked for its cancellation,
its node has left the queue for good and the tick thread is through with it. -/
structure Finished (s : TimerSystem) (k : Nat) (msTime repeatedNum : Int) (m : TimerNode) :
    Prop where
  returned : s.calls k = .returned (.runRepeated msTime repeatedNum) m
  never : ∀ c, (s.cancels c).id? ≠ some m.tnId
  left : ∀ n ∈ s.nodes, n.tnCallback ≠ k
  handled : k ∉ s.tick.posting

/-- A repeated timer that is finished has been posted once more than its count says. -/
theorem Sound.posted_repeated (h : s.Sound) {k : Nat} {msTime repeatedNum : Int} {m : TimerNode}
    (finished : s.Finished k msTime repeatedNum m) :
    s.posted.count k = repeatedNum.toNat + 1 := by
  have hnodes : s.nodesOf k = [] := by
    apply List.filter_eq_nil_iff.mpr
    intro n hn
    simpa using finished.left n hn
  have hposts : s.posts k = s.posted.count k := by
    unfold posts
    rw [List.count_eq_zero.mpr finished.handled, Nat.zero_add]
  have hhistory := h.kept.history k
  have herased := h.erased finished.returned
  rw [hnodes, hposts, finished.returned] at hhistory
  generalize s.posted.count k = p at hhistory
  generalize s.dropped.count k = d at hhistory herased
  cases hhistory with
  | born call m nodes posts drops life =>
    cases life with
    | spent _ posted => exact posted
    | dropped n posts copy =>
      obtain ⟨c, hc⟩ := h.table.erased m.tnId (herased Nat.one_pos)
      exact absurd hc (finished.never c)

/-! ### Such runs -/

/-- The tick thread is at the head of its loop, and nobody else is at work. -/
structure Quiet (s : TimerSystem) : Prop where
  alive : s.destructor = .idle
  running : s.tmRunning = true
  free : s.tmMutex = none
  tick : s.tick = .head
  tpRun : s.tmThreadPool.tpRun = true
  tpLock : s.tmThreadPool.tpLock = none
  waiting : ∀ pc ∈ s.tmThreadPool.tpPool, pc.waiting = false

/-- The tick thread finds the only node in the queue due. -/
theorem Quiet.due (h : s.Quiet) {n : TimerNode} (queue : s.tmQueue = [n]) :
    Reach step s (s.setTick (.pop n) (some .tick)) := by
  obtain ⟨alive, running, free, tick, -, -, -⟩ := h
  have hrun : run step s [.tick 0, .tick 0, .tick 0, .tickTop n n.tnTmPoint] =
      some (s.setTick (.pop n) (some .tick)) := by
    simp [run, step, tickStep, tickTopStep, setTick, IsTop, alive, running, free, tick, queue]
  exact reach_of_run hrun

/-- The tick thread handles the only node in the queue. -/
theorem Quiet.handle (h : s.Quiet) {n : TimerNode} (queue : s.tmQueue = [n])
    (key : s.tmIdStateMap.isKeyExist n.tnId = true) :
    ∃ t, Reach step (s.setTick (.pop n) (some .tick)) t ∧ t.Quiet ∧
      t.tmQueue = (n.rearmed n.tnTmPoint).toList ∧ t.calls = s.calls ∧ t.cancels = s.cancels ∧
      t.tmIdStateMap = s.tmIdStateMap := by
  obtain ⟨alive, running, free, tick, tpRun, tpLock, waiting⟩ := h
  have hrun : ∃ t, run step (s.setTick (.pop n) (some .tick))
      (List.replicate 6 (.tick n.tnTmPoint) ++ [.tickNotify none]) = some t ∧ t.Quiet ∧
      t.tmQueue = (n.rearmed n.tnTmPoint).toList ∧ t.calls = s.calls ∧ t.cancels = s.cancels ∧
      t.tmIdStateMap = s.tmIdStateMap := by
    simp only [setTick, queue, alive, List.replicate, List.cons_append, List.nil_append, run, step,
      reduceCtorEq, ↓reduceIte, tickStep, List.erase_cons_head, List.contains_eq_mem,
      Bool.and_eq_true, Pool.Threadpool.emplace, Option.map_if, tickNotifyStep,
      Pool.Threadpool.notifyOne, List.any_eq_true, Option.bind_fun_some, Option.bind_some, key,
      List.append_nil, decide_eq_true_eq, tpRun, tpLock, Option.map_eq_some_iff,
      Option.ite_none_left_eq_some, not_exists, not_and, Bool.not_eq_true, Option.some.injEq,
      ↓existsAndEq, and_true, and_self]
    exact ⟨waiting, rfl, running, rfl, rfl, rfl, rfl, waiting⟩
  obtain ⟨t, ht, hrest⟩ := hrun
  exact ⟨t, reach_of_run ht, hrest⟩

/-- All expiries of a repeated node, the only one in the queue. -/
theorem Quiet.expire {r : Nat} {n : TimerNode} (h : s.Quiet) (queue : s.tmQueue = [n])
    (key : s.tmIdStateMap.isKeyExist n.tnId = true) (period : n.tnIsPeriod = false)
    (repeated : n.tnIsRepeated = true) (count : n.tnRepeatedNum = r) :
    ∃ t, Reach step s t ∧ t.Quiet ∧ t.tmQueue = [] ∧ t.calls = s.calls ∧
      t.cancels = s.cancels := by
  induction r generalizing s n with
  | zero =>
    obtain ⟨t, hreach, hquiet, hqueue, hcalls, hcancels, -⟩ := h.handle queue key
    refine ⟨t, (h.due queue).trans hreach, hquiet, ?_, hcalls, hcancels⟩
    rw [hqueue]
    simp [TimerNode.rearmed, period, count]
  | succ r ih =>
    obtain ⟨t, hreach, hquiet, hqueue, hcalls, hcancels, hmap⟩ := h.handle queue key
    have hpos : (0 : Int) < (r + 1 : Nat) := by omega
    have hrearmed : n.rearmed n.tnTmPoint = some { n with
        tnTmPoint := n.tnTmPoint + n.tnPeriod * nsPerMs
        tnRepeatedNum := n.tnRepeatedNum - 1 } := by
      simp only [TimerNode.rearmed, period, repeated, count, Bool.true_and, decide_eq_true_eq,
        if_pos hpos, Bool.false_eq_true, if_false]
    rw [hrearmed] at hqueue
    have hcount : n.tnRepeatedNum - 1 = r := by omega
    obtain ⟨u, hreach', hquiet', hqueue', hcalls', hcancels'⟩ :=
      ih hquiet hqueue (by rw [hmap]; exact key) period repeated hcount
    exact ⟨u, ((h.due queue).trans hreach).trans hreach', hquiet', hqueue', hcalls'.trans hcalls,
      hcancels'.trans hcancels⟩

/-- A repeated timer has been made, and its node is the only one in the queue. -/
theorem repeated_made (msTime repeatedNum : Int) {m : TimerNode}
    (hm : m = (RunCall.runRepeated msTime repeatedNum).node 0 0 0) :
    ∃ s, Reach step init s ∧ s.Quiet ∧ s.calls 0 = .returned (.runRepeated msTime repeatedNum) m ∧
      (∀ c, s.cancels c = .idle) ∧ s.tmQueue = [m] ∧ s.tmIdStateMap.isKeyExist m.tnId = true := by
  have hrun : ∃ s, run step init (.start :: runCall 0 (.runRepeated msTime repeatedNum) 0) =
      some s ∧ s.Quiet ∧ s.calls 0 = .returned (.runRepeated msTime repeatedNum) m ∧
      (∀ c, s.cancels c = .idle) ∧ s.tmQueue = [m] ∧
      s.tmIdStateMap.isKeyExist m.tnId = true := by
    rw [hm]
    refine ⟨_, rfl, ⟨rfl, rfl, rfl, rfl, rfl, rfl, ?_⟩, rfl, fun _ ↦ rfl, rfl, rfl⟩
    intro pc hpc
    rw [List.eq_of_mem_replicate hpc]
    rfl
  obtain ⟨s, hs, hrest⟩ := hrun
  exact ⟨s, reach_of_run hs, hrest⟩

/-- For every interval and every count, there is a run in which a repeated timer is finished. -/
theorem repeated_finished (msTime repeatedNum : Int) (nonneg : 0 ≤ repeatedNum) :
    ∃ s m, Reach step init s ∧ s.Finished 0 msTime repeatedNum m := by
  obtain ⟨s, hreach, hquiet, hreturned, hidle, hqueue, hkey⟩ :=
    repeated_made msTime repeatedNum rfl
  obtain ⟨t, hreach', hquiet', hqueue', hcalls, hcancels⟩ :=
    hquiet.expire hqueue hkey rfl rfl (Int.toNat_of_nonneg nonneg).symm
  rw [← hcalls] at hreturned
  refine ⟨t, _, hreach.trans hreach', hreturned, ?_, ?_, ?_⟩
  · intro c hc
    rw [hcancels, hidle c] at hc
    cases hc
  · intro n hn
    unfold nodes at hn
    rw [hquiet'.tick, hqueue'] at hn
    cases hn
  · rw [hquiet'.tick]
    exact List.not_mem_nil

end TimerSystem

/-- For every interval and every count that is not negative, runs finish repeated timers that were
never cancelled, and in each of them the callback has been posted once more than the count
says. -/
theorem repeated_posted_once_more (msTime repeatedNum : Int) (nonneg : 0 ≤ repeatedNum) :
    (∃ s k m, Reach TimerSystem.step .init s ∧ s.Finished k msTime repeatedNum m) ∧
      ∀ s k m, Reach TimerSystem.step .init s → s.Finished k msTime repeatedNum m →
        (s.posted.count k : Int) = repeatedNum + 1 := by
  constructor
  · obtain ⟨s, m, hreach, hfinished⟩ := TimerSystem.repeated_finished msTime repeatedNum nonneg
    exact ⟨s, 0, m, hreach, hfinished⟩
  · intro s k m hreach hfinished
    have hposted := (TimerSystem.sound_of_reach hreach).posted_repeated hfinished
    omega

/-- A timer repeated five times. -/
theorem repeated_five_posted_six :
    (∃ s k m, Reach TimerSystem.step .init s ∧ s.Finished k 800 5 m) ∧
      ∀ s k m, Reach TimerSystem.step .init s → s.Finished k 800 5 m →
        (s.posted.count k : Int) = 5 + 1 :=
  repeated_posted_once_more 800 5 (by decide)

/-- A timer repeated zero times has been posted once. -/
theorem repeated_zero_is_posted :
    ¬ ∀ (msTime repeatedNum : Int) (s : TimerSystem) (k : Nat) (m : TimerNode), 0 ≤ repeatedNum →
      Reach TimerSystem.step .init s → s.Finished k msTime repeatedNum m →
      (s.posted.count k : Int) = repeatedNum := by
  intro h
  obtain ⟨s, m, hreach, hfinished⟩ :=
    TimerSystem.repeated_finished 800 0 (Int.le_refl 0)
  have hnever := h 800 0 s 0 m (Int.le_refl 0) hreach hfinished
  have honce := (TimerSystem.sound_of_reach hreach).posted_repeated hfinished
  rw [honce] at hnever
  cases hnever

end ConcurrentServer.Timer
