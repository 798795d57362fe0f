import ConcurrentServer.Timer.Nodes

/-!
# Executions after a cancellation

`src/timer/timer.h:115–158`, `src/threadpool/threadpool.h:38–98`. `cancel` takes the id out of the
table, and the tick thread looks it up when it has popped the node. What it has found is executed,
whatever happens to the id on the way through the pool; it does not find a cancelled id again.
-/

namespace ConcurrentServer.Timer
open ConcurrentServer.Base

/-- The callback of the node that has been found in the table, until it is posted. -/
def TickPc.found : TickPc → List Nat
  | .rearm n _ => [n.tnCallback]
  | .unlock callback _ | .post callback _ | .emplace callback _ => [callback]
  | _ => []

@[simp] theorem found_notified (pc : TickPc) : pc.notified.found = pc.found := by
  cases pc <;> rfl

namespace TimerSystem

/-- How many executions of the callback of call `k` have started. -/
def started (s : TimerSystem) (k : Nat) : Nat := s.tmThreadPool.begun k

/-- How many executions of the callback of call `k` are on their way: its node has been found in
the table, and no worker has called it. -/
def onTheWay (s : TimerSystem) (k : Nat) : Nat :=
  s.tick.found.count k + s.tmThreadPool.toBegin k

/-- How many executions of the callback of call `k` have started or are on their way. -/
def granted (s : TimerSystem) (k : Nat) : Nat :=
  s.tick.found.count k + s.tmThreadPool.accepted k

/-- What is granted has started or is on its way. -/
theorem started_add_onTheWay (s : TimerSystem) (k : Nat) :
    s.started k + s.onTheWay k = s.granted k := by
  have hpool := s.tmThreadPool.begun_add_toBegin k
  unfold started onTheWay granted
  omega

variable {s t : TimerSystem} {a : TimerAction}

/-- Only the look-up of a node in the table grants an execution of its callback. -/
theorem granted_step (hstep : Step s a t) (k : Nat) :
    t.granted k = s.granted k ∨
      ∃ n late, s.tick = .isKeyExist n late ∧ n.tnCallback = k ∧
        s.tmIdStateMap.isKeyExist n.tnId = true := by
  have tick {pc : TickPc} (hpc : pc.found = s.tick.found) :
      pc.found.count k + s.tmThreadPool.accepted k = s.granted k := by
    rw [hpc]
    rfl
  cases hstep with
  | notifyCall k' now call n at_ => exact .inl (tick (found_notified s.tick))
  | notifyTick a pc => exact .inl (tick (found_notified s.tick))
  | tickMove a pc holder move =>
    cases move with
    | found n late at_ key =>
      by_cases hk : n.tnCallback = k
      · exact .inr ⟨n, late, at_, hk, key⟩
      · left
        show [n.tnCallback].count k + s.tmThreadPool.accepted k = _
        unfold granted
        rw [at_, List.count_eq_zero.mpr]
        · rfl
        · intro hmem
          exact hk (List.mem_singleton.mp hmem).symm
    | start at_ | enter at_ | leave at_ | lock at_ free | empty at_ queue | some_ at_ | wait at_
    | woken notified at_ free | early n at_ top | due n at_ top | waitFor n at_
    | wokenFor n notified at_ free | unlock callback late at_ | post callback late at_ =>
      left
      apply tick
      rw [at_]
      rfl
  | pop now n at_ | drop now n late at_ key | rearm now n late at_ =>
    left
    apply tick
    rw [at_]
    rfl
  | postTask now callback late pool at_ emplaced =>
    left
    have hpool := Pool.Threadpool.accepted_emplace emplaced k
    show [].count k + pool.accepted k = _
    unfold granted
    rw [hpool, at_, List.count_nil]
    show _ = [callback].count k + _
    omega
  | notify who pool at_ notified =>
    left
    have hpool := (Pool.Threadpool.notified_notifyOne notified).accepted k
    show [].count k + pool.accepted k = _
    unfold granted
    rw [hpool, at_]
    rfl
  | worker w pool moved =>
    left
    show s.tick.found.count k + pool.accepted k = _
    rw [Pool.Threadpool.accepted_workerStep moved k]
    rfl
  | destroyPool a pool pc pc' pc'' moved =>
    left
    show s.tick.found.count k + pool.accepted k = _
    rw [Pool.Threadpool.accepted_destructorStep moved k]
    rfl
  | _ => exact .inl rfl

/-- What has been cancelled has been cancelled for good. -/
theorem Step.cancelled (hstep : Step s a t) : s.cancelled ⊆ t.cancelled := by
  cases hstep with
  | cancelRet c id known at_ =>
    show s.cancelled ⊆ if known then s.cancelled ++ [id] else s.cancelled
    split
    · exact List.subset_append_left _ _
    · exact List.Subset.refl _
  | _ => exact List.Subset.refl _

/-- No step grants an execution of a cancelled callback. -/
theorem Sound.granted_step (h : s.Sound) (hstep : Step s a t) {k : Nat} {id : Int}
    (got : (s.calls k).id? = some id) (unique : s.Unique id) (cancelled : id ∈ s.cancelled) :
    t.granted k = s.granted k := by
  cases TimerSystem.granted_step hstep k with
  | inl hsame => exact hsame
  | inr hfound =>
    obtain ⟨n, late, at_, hk, key⟩ := hfound
    obtain ⟨call, m, hpushed, hid, -⟩ := h.kept.of_mem (mem_nodes_of_isKeyExist at_)
    rw [hk] at hpushed
    have hgot : m.tnId = id := by
      rw [id?_of_entered? (entered?_of_pushed? hpushed)] at got
      exact Option.some.inj got
    have habsent := h.table.not_exist unique cancelled
    rw [hid, hgot, habsent] at key
    cases key

/-- Once the id of a call has been cancelled, nothing is granted any more. -/
theorem Sound.granted_reach (h : s.Sound) {k : Nat} {id : Int} (got : (s.calls k).id? = some id)
    (cancelled : id ∈ s.cancelled) (later : Reach TimerSystem.step s t) :
    t.Sound ∧ (t.calls k).id? = some id ∧ id ∈ t.cancelled ∧
      (t.Unique id → t.granted k = s.granted k) := by
  apply later.invariant ⟨h, got, cancelled, fun _ ↦ rfl⟩
  intro u a v hu _ hstep
  obtain ⟨hsound, hgot, hcancelled, hgranted⟩ := hu
  have hmove := step_inversion hstep
  refine ⟨hsound.step hmove, hmove.id hgot, hmove.cancelled hcancelled, ?_⟩
  intro hunique
  have hbefore := hmove.unique hunique
  rw [hsound.granted_step hmove hgot hbefore hcancelled]
  exact hgranted hbefore

end TimerSystem

/-- Once `cancel` has returned for an id in use, and as long as no other call gets this id, the
executions of the callback that start are the ones that were on their way. -/
theorem cancelled_starts_only_on_the_way {s t : TimerSystem} {k : Nat} {id : Int}
    (h : Reach TimerSystem.step .init s) (got : (s.calls k).id? = some id)
    (cancelled : id ∈ s.cancelled) (later : Reach TimerSystem.step s t) (unique : t.Unique id) :
    t.started k + t.onTheWay k = s.started k + s.onTheWay k := by
  obtain ⟨-, -, -, hgranted⟩ :=
    (TimerSystem.sound_of_reach h).granted_reach got cancelled later
  rw [TimerSystem.started_add_onTheWay, TimerSystem.started_add_onTheWay]
  exact hgranted unique

/-- A timer expires, and its callback is queued in the pool when the timer is cancelled. -/
def cancelAfterPost : List TimerAction :=
  .flatten [[.start], runCall 0 (.runAfter 0 false) 0, expiry ⟨0, 0, 0, 0, false, false, 0⟩ 0,
    [.cancel 0 0, .cancelStep 0, .cancelStep 0, .cancelStep 0]]

/-- A worker takes a task and calls it. -/
def workerCalls : List TimerAction := List.replicate 7 (.worker 0)

/-- The run has started no execution when the cancellation returns, and one afterwards. -/
theorem run_cancelAfterPost :
    ∃ s t, run TimerSystem.step .init cancelAfterPost = some s ∧
      run TimerSystem.step s workerCalls = some t ∧ (s.calls 0).id? = some 0 ∧
      0 ∈ s.cancelled ∧ s.started 0 = 0 ∧ t.started 0 = 1 ∧ t.tmCount ≤ 2 ^ 32 := by
  have hrun : (run TimerSystem.step .init cancelAfterPost).isSome := by decide +kernel
  have hstart : ∀ s ∈ run TimerSystem.step .init cancelAfterPost,
      (s.calls 0).id? = some 0 ∧ 0 ∈ s.cancelled ∧ s.started 0 = 0 ∧
        (run TimerSystem.step s workerCalls).isSome ∧
        ∀ t ∈ run TimerSystem.step s workerCalls, t.started 0 = 1 ∧ t.tmCount ≤ 2 ^ 32 := by
    decide +kernel
  obtain ⟨s, hs⟩ := Option.isSome_iff_exists.mp hrun
  obtain ⟨got, cancelled, hnone, hcalls, hone⟩ := hstart s hs
  obtain ⟨t, ht⟩ := Option.isSome_iff_exists.mp hcalls
  exact ⟨s, t, hs, ht, got, cancelled, hnone, hone t ht⟩

/-- The callback that was queued when its timer was cancelled starts after that. -/
theorem queued_callback_starts :
    ∃ s t, run TimerSystem.step .init cancelAfterPost = some s ∧
      run TimerSystem.step s workerCalls = some t ∧
      t.started 0 + t.onTheWay 0 = s.started 0 + s.onTheWay 0 := by
  obtain ⟨s, t, hs, ht, got, cancelled, -, -, few⟩ := run_cancelAfterPost
  have hreach := reach_of_run hs
  have hsound := TimerSystem.sound_of_reach (hreach.trans (reach_of_run ht))
  refine ⟨s, t, hs, ht, ?_⟩
  exact cancelled_starts_only_on_the_way hreach got cancelled (reach_of_run ht)
    (hsound.numbered.distinct few 0)

/-- An execution starts although the cancellation has returned. -/
theorem cancelled_callback_starts :
    ¬ ∀ (s t : TimerSystem) (k : Nat) (id : Int), Reach TimerSystem.step .init s →
      (s.calls k).id? = some id → id ∈ s.cancelled → Reach TimerSystem.step s t →
      t.started k = s.started k := by
  intro h
  obtain ⟨s, t, hs, ht, got, cancelled, hnone, hone, -⟩ := run_cancelAfterPost
  have hsame := h s t 0 0 (reach_of_run hs) got cancelled (reach_of_run ht)
  rw [hnone, hone] at hsame
  cases hsame

end ConcurrentServer.Timer
