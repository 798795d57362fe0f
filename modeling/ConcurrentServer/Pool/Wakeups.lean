import ConcurrentServer.Pool.PoolStep

/-!
# Sleeping workers

`src/threadpool/threadpool.h:28–98`. A worker tests the predicate of its wait and blocks while it
holds `tp_lock`, so no task is inserted in between, and no task is stranded in a pool whose
workers all sleep. The destructor clears `tp_run` and notifies without `tp_lock`: a worker that
is between the two at that moment sleeps on.
-/

namespace ConcurrentServer.Pool
open ConcurrentServer.Base

namespace PostPc

/-- Between the insertion and `notify_one`. -/
def notifying : PostPc → Bool
  | .notify => true
  | .idle | .testRun | .emplace | .returned | .threw => false

/-- Past the test of `tp_run`, with the insertion still to come. -/
def toEmplace : PostPc → Bool
  | .emplace => true
  | .idle | .testRun | .notify | .returned | .threw => false

/-- Past the test of `tp_run`, with `notify_one` still to come. -/
def toNotify : PostPc → Bool
  | .emplace | .notify => true
  | .idle | .testRun | .returned | .threw => false

end PostPc

namespace PoolSystem

variable {s t : PoolSystem} {a : PoolAction}

/-! ### Queued tasks -/

/-- A task is queued, every worker is blocked without a notification, and no call is about to
give one. -/
def Stranded (s : PoolSystem) : Prop :=
  s.pool.tpTasks ≠ [] ∧ (∀ pc ∈ s.pool.tpPool, pc.waiting = true) ∧ ∀ c, s.posts c ≠ .notify

/-- While a task is queued, a worker is awake or a call is about to wake one. -/
def Served (s : PoolSystem) : Prop :=
  s.pool.tpTasks ≠ [] →
    (∃ pc ∈ s.pool.tpPool, pc.waiting = false) ∨ ∃ c, (s.posts c).notifying = true

/-- A worker that moves while a task is queued is awake afterwards. -/
theorem awake_of_workerStep {pool : Threadpool Nat} {w : Nat} (hl : s.pool.Locked)
    (moved : s.pool.workerStep w = some pool) (tasks : pool.tpTasks ≠ []) :
    ∃ pc ∈ pool.tpPool, pc.waiting = false := by
  obtain ⟨pc, pc', hw⟩ := Threadpool.lockStep_of_workerStep moved
  refine ⟨pc', ?_, ?_⟩
  · apply List.mem_of_getElem? (i := w)
    rw [hw.pool, getElem?_setThread hw.at_, if_pos rfl]
  · cases hw.move with
    | enter | block => rfl
    | wait lock => exact absurd (hw.tasks (hl.empty w hw.at_)) tasks
    | keep before after awake lock | leave before after awake lock
    | outside before after awake lock =>
      cases pc' with
      | blocked notified =>
        cases notified with
        | true => rfl
        | false => cases awake
      | _ => rfl

/-- After `notify_one`, not every worker waits. -/
theorem awake_of_notifyOne {pool : Threadpool Nat} {who : Option Nat}
    (some_ : s.pool.tpPool ≠ []) (notified : s.pool.notifyOne who = some pool) :
    ∃ pc ∈ pool.tpPool, pc.waiting = false := by
  unfold Threadpool.notifyOne at notified
  split at notified
  · rename_i w
    split at notified
    · rename_i at_
      cases notified
      refine ⟨.blocked true, ?_, rfl⟩
      apply List.mem_of_getElem? (i := w)
      show (s.pool.tpPool.set w (.blocked true))[w]? = _
      rw [getElem?_setThread at_, if_pos rfl]
    · cases notified
  · split at notified
    · cases notified
    · rename_i hnone
      cases notified
      obtain ⟨pc, rest, hpool⟩ := List.exists_cons_of_ne_nil some_
      refine ⟨pc, by rw [hpool]; exact List.mem_cons_self, ?_⟩
      rw [hpool, List.any_cons, Bool.or_eq_true, not_or] at hnone
      rw [← Bool.not_eq_true]
      exact hnone.1

/-- Every step. -/
theorem Served.step (h : s.Served) (hl : s.pool.Locked) (some_ : s.pool.tpPool ≠ [])
    (hstep : Step s a t) : t.Served := by
  intro tasks
  cases hstep with
  | postTask c at_ =>
    refine (h tasks).imp_right fun hcall ↦ exists_update_of_keeps hcall ?_
    rw [at_]
    exact id
  | testRun c who at_ =>
    refine (h tasks).imp_right fun hcall ↦ exists_update_of_keeps hcall ?_
    rw [at_]
    intro hnotifying
    cases hnotifying
  | emplace c who pool at_ emplaced =>
    right
    refine ⟨c, ?_⟩
    show (Function.update s.posts c .notify c).notifying = true
    rw [Function.update_self]
    rfl
  | notify c who pool at_ notified => exact Or.inl (awake_of_notifyOne some_ notified)
  | worker w pool moved => exact Or.inl (awake_of_workerStep hl moved tasks)
  | destroy | stop | join => exact h tasks
  | notifyAll at_ =>
    left
    obtain ⟨pc, rest, hpool⟩ := List.exists_cons_of_ne_nil some_
    refine ⟨pc.notify, ?_, ?_⟩
    · show pc.notify ∈ s.pool.tpPool.map WorkerPc.notify
      rw [hpool]
      exact List.mem_cons_self
    · cases pc <;> rfl

/-- Before the first step. -/
theorem served_init (n : Nat) : (PoolSystem.init n).Served := by
  intro tasks
  exact absurd rfl tasks

/-- In every reached state of a pool with a worker. -/
theorem served_of_reach {n : Nat} (some_ : 1 ≤ n) (h : Reach step (init n) s) : s.Served := by
  induction h with
  | refl => exact served_init n
  | @tail s t a hs _ hstep ih =>
    have hworker : s.pool.tpPool ≠ [] := by
      apply List.ne_nil_of_length_pos
      rw [length_of_reach hs]
      exact some_
    exact ih.step (locked_of_reach hs) hworker (step_inversion hstep)

end PoolSystem

/-- In a pool with a worker, whether it runs or has been stopped, no task is stranded. -/
theorem no_task_stranded {n : Nat} {s : PoolSystem} (some_ : 1 ≤ n)
    (h : Reach PoolSystem.step (.init n) s) : ¬ s.Stranded := by
  rintro ⟨tasks, hasleep, hcalls⟩
  cases PoolSystem.served_of_reach some_ h tasks with
  | inl hworker =>
    obtain ⟨pc, hpc, hawake⟩ := hworker
    rw [hasleep pc hpc] at hawake
    cases hawake
  | inr hcall =>
    obtain ⟨c, hc⟩ := hcall
    apply hcalls c
    cases hpc : s.posts c <;> rw [hpc] at hc <;> first | rfl | cases hc

/-- The only worker sleeps when a task is posted. -/
def postToSleeper : List PoolAction :=
  List.replicate 4 (.worker 0) ++ [.postTask 0, .post 0 none, .post 0 none, .post 0 (some 0)]

/-- The worker is woken for it. -/
theorem sleeper_is_woken :
    ∃ s, run PoolSystem.step (.init 1) postToSleeper = some s ∧ ¬ s.Stranded := by
  have hrun : (run PoolSystem.step (.init 1) postToSleeper).isSome := by decide +kernel
  obtain ⟨s, hs⟩ := Option.isSome_iff_exists.mp hrun
  exact ⟨s, hs, no_task_stranded (Nat.le_refl 1) (reach_of_run hs)⟩

/-! ### Stopping -/

/-- The workers have been notified. -/
def DestructorPc.notified : DestructorPc → Bool
  | .join _ | .returned => true
  | .idle | .stop | .notify => false

namespace PoolSystem

variable {s t : PoolSystem} {a : PoolAction}

/-- The destructor waits for a worker that is blocked with no notification delivered to it or to
come from a call. -/
def Hangs (s : PoolSystem) : Prop :=
  ∃ k, s.destructor = .join k ∧ s.pool.tpPool[k]? = some (.blocked false) ∧
    ∀ c, (s.posts c).toNotify = false

/-- When the destructor notifies the workers, none is between its predicate and its block, unless
a call is still to insert a task. -/
def NotifiesInTime (s : PoolSystem) : PoolAction → Prop
  | .destructor => s.destructor = .notify → .block ∈ s.pool.tpPool →
    ∃ c, (s.posts c).toEmplace = true
  | _ => True

/-- When the destructor notifies the workers, none is between its predicate and its block. -/
def NotifiesAsleep (s : PoolSystem) : PoolAction → Prop
  | .destructor => s.destructor = .notify → .block ∉ s.pool.tpPool
  | _ => True

instance : ∀ (s : PoolSystem) (a : PoolAction), Decidable (s.NotifiesAsleep a)
  | s, .destructor => inferInstanceAs
      (Decidable (s.destructor = .notify → .block ∉ s.pool.tpPool))
  | _, .postTask _ | _, .post _ _ | _, .worker _ | _, .destroy =>
    inferInstanceAs (Decidable True)

/-- Where no worker is about to block, no call is needed. -/
theorem notifiesInTime_of_asleep (s : PoolSystem) (a : PoolAction) (h : s.NotifiesAsleep a) :
    s.NotifiesInTime a := by
  cases a with
  | destructor =>
    intro hnotify hblock
    exact absurd hblock (h hnotify)
  | _ => trivial

/-- `tp_run` is cleared once the destructor has done so. -/
def FlagCleared (s : PoolSystem) : Prop := s.destructor.stopped = true → s.pool.tpRun = false

/-- Every step. -/
theorem FlagCleared.step (h : s.FlagCleared) (hstep : Step s a t) : t.FlagCleared := by
  intro hstopped
  cases hstep with
  | postTask | testRun => exact h hstopped
  | emplace c who pool at_ emplaced =>
    show pool.tpRun = false
    unfold Threadpool.emplace at emplaced
    split at emplaced <;> cases emplaced
    exact h hstopped
  | notify c who pool at_ notified =>
    show pool.tpRun = false
    rw [(Threadpool.woken_notifyOne notified).same]
    exact h hstopped
  | worker w pool moved =>
    obtain ⟨pc, pc', hw⟩ := Threadpool.lockStep_of_workerStep moved
    show pool.tpRun = false
    rw [hw.run]
    exact h hstopped
  | destroy at_ => cases hstopped
  | stop at_ => rfl
  | notifyAll at_ => exact h (by rw [at_]; rfl)
  | join k pc at_ after => exact h (by rw [at_]; rfl)

/-- In every reached state. -/
theorem flagCleared_of_reach {n : Nat} (h : Reach step (init n) s) : s.FlagCleared := by
  apply h.invariant
  · intro hstopped
    cases hstopped
  · intro s a t hs _ hstep
    exact hs.step (step_inversion hstep)

/-- Only one worker may be asleep or about to fall asleep, and a call will wake it. -/
structure Wakeable (s : PoolSystem) : Prop where
  block : ∀ w : Nat, s.pool.tpPool[w]? = some .block → ∃ c, (s.posts c).toEmplace = true
  asleep : ∀ w : Nat, s.pool.tpPool[w]? = some (.blocked false) →
    ∃ c, (s.posts c).toNotify = true
  alone : ∀ (w w' : Nat) pc pc', s.pool.tpPool[w]? = some pc → pc.sleepy = true →
    s.pool.tpPool[w']? = some pc' → pc'.sleepy = true → w = w'

/-- The workers stay where they are, and a call moves on that keeps what it owes. -/
theorem Wakeable.setPost (h : s.Wakeable) {c : Nat} {pc : PostPc}
    (pool : t.pool.tpPool = s.pool.tpPool) (posts : t.posts = Function.update s.posts c pc)
    (block : (∃ w : Nat, s.pool.tpPool[w]? = some .block) →
      (s.posts c).toEmplace = true → pc.toEmplace = true)
    (asleep : (∃ w : Nat, s.pool.tpPool[w]? = some (.blocked false)) →
      (s.posts c).toNotify = true → pc.toNotify = true) : t.Wakeable := by
  constructor
  · intro w hw
    rw [pool] at hw
    rw [posts]
    exact exists_update_of_keeps (h.block w hw) (block ⟨w, hw⟩)
  · intro w hw
    rw [pool] at hw
    rw [posts]
    exact exists_update_of_keeps (h.asleep w hw) (asleep ⟨w, hw⟩)
  · rw [pool]
    exact h.alone

/-- The workers that sleep or are about to were so before, and the calls are the same. -/
theorem Wakeable.pool (h : s.Wakeable) (posts : t.posts = s.posts)
    (block : ∀ w : Nat, t.pool.tpPool[w]? = some .block → s.pool.tpPool[w]? = some .block)
    (asleep : ∀ w : Nat, t.pool.tpPool[w]? = some (.blocked false) →
      s.pool.tpPool[w]? = some (.blocked false) ∨ s.pool.tpPool[w]? = some .block) :
    t.Wakeable := by
  have hsleepy : ∀ (w : Nat) pc, t.pool.tpPool[w]? = some pc → pc.sleepy = true →
      ∃ pc₀, s.pool.tpPool[w]? = some pc₀ ∧ pc₀.sleepy = true := by
    intro w pc hw hpc
    cases WorkerPc.holds_or_waiting hpc with
    | inl hblock =>
      rw [hblock] at hw
      exact ⟨.block, block w hw, rfl⟩
    | inr hwaiting =>
      rw [hwaiting] at hw
      cases asleep w hw with
      | inl hold => exact ⟨.blocked false, hold, rfl⟩
      | inr hold => exact ⟨.block, hold, rfl⟩
  constructor
  · intro w hw
    rw [posts]
    exact h.block w (block w hw)
  · intro w hw
    rw [posts]
    cases asleep w hw with
    | inl hold => exact h.asleep w hold
    | inr hold =>
      obtain ⟨c, hc⟩ := h.block w hold
      refine ⟨c, ?_⟩
      cases hpc : s.posts c <;> rw [hpc] at hc <;> first | rfl | cases hc
  · intro w w' pc pc' hw hpc hw' hpc'
    obtain ⟨pc₀, hw₀, hpc₀⟩ := hsleepy w pc hw hpc
    obtain ⟨pc₀', hw₀', hpc₀'⟩ := hsleepy w' pc' hw' hpc'
    exact h.alone w w' pc₀ pc₀' hw₀ hpc₀ hw₀' hpc₀'

/-- A worker that finds `tp_run` cleared does not fall asleep. -/
theorem Wakeable.worker (h : s.Wakeable) (hrun : s.pool.tpRun = false) {w : Nat}
    {pool : Threadpool Nat} (moved : s.pool.workerStep w = some pool) :
    { s with pool := pool }.Wakeable := by
  obtain ⟨pc, pc', hw⟩ := Threadpool.lockStep_of_workerStep moved
  have hplace : ∀ (w' : Nat) pc₁, pool.tpPool[w']? = some pc₁ → pc₁.sleepy = true →
      s.pool.tpPool[w']? = some pc₁ ∨
        s.pool.tpPool[w']? = some .block ∧ pc₁ = .blocked false := by
    intro w' pc₁ hw' hpc₁
    rw [hw.pool, getElem?_setThread hw.at_] at hw'
    by_cases hne : w' = w
    · rw [if_pos hne] at hw'
      cases hw'
      rw [hne]
      cases hw.move with
      | enter => cases hpc₁
      | block run tasks lock =>
        rw [hrun] at run
        cases run
      | wait lock => exact Or.inr ⟨hw.at_, rfl⟩
      | keep before after awake lock | leave before after awake lock
      | outside before after awake lock =>
        rw [awake] at hpc₁
        cases hpc₁
    · rw [if_neg hne] at hw'
      exact Or.inl hw'
  refine h.pool rfl ?_ ?_
  · intro w' hw'
    cases hplace w' .block hw' rfl with
    | inl hold => exact hold
    | inr hold => cases hold.2
  · intro w' hw'
    exact (hplace w' (.blocked false) hw' rfl).imp_right fun hold ↦ hold.1

/-- A notification alone. -/
theorem Wakeable.woken (h : s.Wakeable) (posts : t.posts = s.posts)
    (woken : s.pool.Woken t.pool) : t.Wakeable := by
  have hplace : ∀ (w : Nat) pc, t.pool.tpPool[w]? = some pc → pc.sleepy = true →
      s.pool.tpPool[w]? = some pc := by
    intro w pc hw hpc
    cases woken.places w pc hw with
    | inl hold => exact hold
    | inr hblocked =>
      rw [hblocked.1] at hpc
      cases hpc
  apply h.pool posts
  · intro w hw
    exact hplace w .block hw rfl
  · intro w hw
    exact Or.inl (hplace w (.blocked false) hw rfl)

/-- The last thing a call owes is its notification, and that reaches the sleeping worker. -/
theorem Wakeable.notify (h : s.Wakeable) {c : Nat} {who : Option Nat} {pool : Threadpool Nat}
    (at_ : s.posts c = .notify) (notified : s.pool.notifyOne who = some pool) :
    { s.setPost c .returned with pool := pool }.Wakeable := by
  have hwoken := Threadpool.woken_notifyOne notified
  have hpool : { s with pool := pool }.Wakeable := h.woken rfl hwoken
  have hawake : ∀ w : Nat, pool.tpPool[w]? ≠ some (.blocked false) := by
    intro w hw
    unfold Threadpool.notifyOne at notified
    split at notified
    · rename_i w'
      split at notified
      · rename_i at_'
        cases notified
        have hplace : (s.pool.tpPool.set w' (.blocked true))[w]? = some (.blocked false) := hw
        rw [getElem?_setThread at_'] at hplace
        by_cases hne : w = w'
        · rw [if_pos hne] at hplace
          cases hplace
        · rw [if_neg hne] at hplace
          exact hne (h.alone w w' _ _ hplace rfl at_' rfl)
      · cases notified
    · split at notified
      · cases notified
      · rename_i hnone
        cases notified
        apply hnone
        rw [List.any_eq_true]
        exact ⟨.blocked false, List.mem_of_getElem? hw, rfl⟩
  refine hpool.setPost (c := c) rfl rfl ?_ ?_
  · rintro ⟨w, hw⟩ hemplace
    change (s.posts c).toEmplace = true at hemplace
    rw [at_] at hemplace
    cases hemplace
  · rintro ⟨w, hw⟩
    exact absurd hw (hawake w)

/-- Every step with `tp_run` cleared. -/
theorem Wakeable.step (h : s.Wakeable) (hl : s.pool.Locked) (hrun : s.pool.tpRun = false)
    (hstep : Step s a t) : t.Wakeable := by
  cases hstep with
  | postTask c at_ =>
    refine h.setPost (c := c) rfl rfl ?_ ?_
    · rw [at_]
      exact fun _ ↦ id
    · rw [at_]
      exact fun _ ↦ id
  | testRun c who at_ =>
    rw [hrun]
    refine h.setPost (c := c) rfl rfl ?_ ?_
    · rw [at_]
      exact fun _ ↦ id
    · rw [at_]
      exact fun _ ↦ id
  | emplace c who pool at_ emplaced =>
    unfold Threadpool.emplace at emplaced
    split at emplaced
    · rename_i free
      cases emplaced
      refine h.setPost (c := c) rfl rfl ?_ ?_
      · rintro ⟨w, hw⟩
        have hout := hl.outside free hw
        cases hout
      · intro _ _
        rfl
    · cases emplaced
  | notify c who pool at_ notified => exact h.notify at_ notified
  | worker w pool moved => exact h.worker hrun moved
  | destroy | stop | join => exact ⟨h.block, h.asleep, h.alone⟩
  | notifyAll at_ => exact h.woken rfl s.pool.woken_notifyAll

/-- Only the notification of the destructor gets it past it. -/
theorem notify_of_notified (hstep : Step s a t) (before : s.destructor.notified = false)
    (after : t.destructor.notified = true) :
    a = .destructor ∧ s.destructor = .notify ∧
      t = { s with destructor := .join 0, pool := s.pool.notifyAll } := by
  cases hstep with
  | postTask | testRun | emplace | notify | worker =>
    have hsame : s.destructor.notified = true := after
    rw [before] at hsame
    cases hsame
  | destroy | stop => cases after
  | notifyAll at_ => exact ⟨rfl, at_, rfl⟩
  | join k pc at_ after =>
    rw [at_] at before
    cases before

/-- The notification, when it is in time. -/
theorem wakeable_of_notify (hok : s.NotifiesInTime .destructor) (at_ : s.destructor = .notify)
    (hl : s.pool.Locked) :
    { s with destructor := .join 0, pool := s.pool.notifyAll }.Wakeable := by
  have hblock : ∀ (w : Nat) pc, s.pool.notifyAll.tpPool[w]? = some pc → pc.sleepy = true →
      s.pool.tpPool[w]? = some .block ∧ pc = .block := by
    intro w pc hw hpc
    change (s.pool.tpPool.map WorkerPc.notify)[w]? = some pc at hw
    rw [List.getElem?_map, Option.map_eq_some_iff] at hw
    obtain ⟨pc₀, hw₀, rfl⟩ := hw
    have hpc₀ := WorkerPc.sleepy_notify hpc
    rw [hpc₀] at hw₀ ⊢
    exact ⟨hw₀, rfl⟩
  constructor
  · intro w hw
    exact hok at_ (List.mem_of_getElem? (hblock w .block hw rfl).1)
  · intro w hw
    cases (hblock w (.blocked false) hw rfl).2
  · intro w w' pc pc' hw hpc hw' hpc'
    exact hl.alone (hblock w pc hw hpc).1 rfl (hblock w' pc' hw' hpc').1 rfl

/-- After a notification in time, in every reached state. -/
theorem wakeable_of_reach {n : Nat} (h : ReachBy step NotifiesInTime (init n) s) :
    s.destructor.notified = true → s.Wakeable := by
  apply h.after (E := fun s ↦ s.destructor.notified = true) (P := Wakeable)
  · intro hnotified
    cases hnotified
  · intro s a t hs hbefore hok hstep hafter
    rw [Bool.not_eq_true] at hbefore
    obtain ⟨rfl, at_, rfl⟩ := notify_of_notified (step_inversion hstep) hbefore hafter
    exact wakeable_of_notify hok at_ (locked_of_reach hs.reach)
  · intro s a t hs hafter hwake hstep
    have hrun : s.pool.tpRun = false := by
      apply flagCleared_of_reach hs.reach
      cases hpc : s.destructor <;> rw [hpc] at hafter <;> first | rfl | cases hafter
    exact hwake.step (locked_of_reach hs.reach) hrun (step_inversion hstep)

end PoolSystem

/-- If the destructor notifies no worker that is between its predicate and its block, it never
waits for a worker that nobody wakes. -/
theorem pool_stop_never_hangs {n : Nat} {s : PoolSystem}
    (h : ReachBy PoolSystem.step PoolSystem.NotifiesInTime (.init n) s) : ¬ s.Hangs := by
  rintro ⟨k, hjoin, hasleep, hnone⟩
  have hwake := PoolSystem.wakeable_of_reach h (by rw [hjoin]; rfl)
  obtain ⟨c, hc⟩ := hwake.asleep k hasleep
  rw [hnone c] at hc
  cases hc

/-- One of two workers sleeps when the pool is destroyed, and the other is at its task. -/
def stopWithSleeper : List PoolAction :=
  .flatten [[.postTask 0, .post 0 none, .post 0 none, .post 0 none], .replicate 7 (.worker 0),
    .replicate 4 (.worker 1), [.destroy, .destructor, .destructor]]

/-- Both end, and the destructor does not wait for ever. -/
theorem sleeper_is_woken_by_destructor :
    ∃ s, run PoolSystem.step (.init 2) stopWithSleeper = some s ∧ ¬ s.Hangs := by
  have hrun : (run PoolSystem.step (.init 2) stopWithSleeper).isSome := by decide +kernel
  obtain ⟨s, hs⟩ := Option.isSome_iff_exists.mp hrun
  have hok : Admits PoolSystem.step PoolSystem.NotifiesAsleep (.init 2) stopWithSleeper := by
    decide +kernel
  exact ⟨s, hs, pool_stop_never_hangs
    (reachBy_of_run hs (hok.weaken PoolSystem.notifiesInTime_of_asleep))⟩

/-- The destructor clears `tp_run` and notifies when the only worker has found no task and not
blocked yet. -/
def stopBeforeBlock : List PoolAction :=
  .flatten [.replicate 3 (.worker 0), [.destroy, .destructor, .destructor, .worker 0]]

/-- The worker falls asleep, and the destructor waits for it. -/
theorem notification_comes_before_block :
    ¬ ∀ (n : Nat) (s : PoolSystem), Reach PoolSystem.step (.init n) s → ¬ s.Hangs := by
  intro h
  have hrun : (run PoolSystem.step (.init 1) stopBeforeBlock).isSome := by decide +kernel
  have hends : ∀ t ∈ run PoolSystem.step (.init 1) stopBeforeBlock,
      t.destructor = .join 0 ∧ t.pool.tpPool[0]? = some (.blocked false) := by
    decide +kernel
  have hposts : (run PoolSystem.step (.init 1) stopBeforeBlock).map PoolSystem.posts =
      some fun _ ↦ .idle := rfl
  obtain ⟨s, hs⟩ := Option.isSome_iff_exists.mp hrun
  obtain ⟨hjoin, hasleep⟩ := hends s hs
  rw [hs] at hposts
  apply h 1 s (reach_of_run hs)
  refine ⟨0, hjoin, hasleep, fun c ↦ ?_⟩
  rw [show s.posts = fun _ ↦ .idle from Option.some.inj hposts]
  rfl

end ConcurrentServer.Pool
