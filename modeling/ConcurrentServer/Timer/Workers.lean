import ConcurrentServer.Pool.PoolStep
import ConcurrentServer.Timer.Stop

/-!
# The workers of the timer

`src/timer/timer.h:42–50, 154–157`, `src/threadpool/threadpool.h:28–36`. What the steps of the
timer do to its pool: only the tick thread inserts tasks, and only workers take them. The
destructor of the timer joins the tick thread, and that of its pool the workers, so they have all
returned when the timer is gone.
-/

namespace ConcurrentServer.Timer
open ConcurrentServer.Base
open ConcurrentServer.Pool (Threadpool WorkerPc)

namespace TimerSystem

variable {s t : TimerSystem} {a : TimerAction}

/-! ### Tasks -/

/-- The same tasks are queued, and no worker has got one. -/
structure KeepsTasks (s t : Threadpool Nat) : Prop where
  tasks : t.tpTasks = s.tpTasks
  places : ∀ (w : Nat) pc, t.tpPool[w]? = some pc →
    s.tpPool[w]? = some pc ∨ pc = .blocked true

/-- A pool that nothing happens to. -/
theorem keepsTasks_refl (s : Threadpool Nat) : KeepsTasks s s := ⟨rfl, fun _ _ hw ↦ Or.inl hw⟩

/-- A notification. -/
theorem keepsTasks_of_woken {s t : Threadpool Nat} (h : s.Woken t) : KeepsTasks s t := by
  constructor
  · rw [h.same]
  · intro w pc hw
    cases h.places w pc hw with
    | inl hsame => exact Or.inl hsame
    | inr hblocked => exact Or.inr hblocked.1

/-- `~Threadpool`. -/
theorem keepsTasks_of_destructorStep {s t : Threadpool Nat} {pc pc' : Pool.DestructorPc}
    (h : s.destructorStep pc = some (t, pc')) : KeepsTasks s t := by
  unfold Threadpool.destructorStep at h
  split at h
  · cases h
    exact ⟨rfl, fun _ _ hw ↦ Or.inl hw⟩
  · cases h
    exact keepsTasks_of_woken s.woken_notifyAll
  · split at h
    · cases h
      exact keepsTasks_refl s
    · cases h
      exact keepsTasks_refl s
    · cases h
  · cases h
  · cases h

/-- What a step does to the timer's pool: the tick thread inserts a task, a worker moves, or
workers are notified at most. -/
theorem pool_of_step (h : s.step a = some t) :
    (∃ now callback late, a = .tick now ∧ s.tick = .emplace callback late) ∨
      (∃ w, a = .worker w ∧ s.tmThreadPool.workerStep w = some t.tmThreadPool) ∨
        KeepsTasks s.tmThreadPool t.tmThreadPool := by
  cases step_inversion h with
  | postTask now callback late pool at_ => exact Or.inl ⟨now, callback, late, rfl, at_⟩
  | worker w pool moved => exact Or.inr (Or.inl ⟨w, rfl, moved⟩)
  | notify who pool at_ notified =>
    exact Or.inr (Or.inr (keepsTasks_of_woken (Threadpool.woken_notifyOne notified)))
  | destroyPool a pool pc pc' pc'' moved =>
    exact Or.inr (Or.inr (keepsTasks_of_destructorStep moved))
  | _ => exact Or.inr (Or.inr (keepsTasks_refl _))

/-- A step of a worker is one of the pool. -/
theorem worker_of_step {w : Nat} (h : s.step (.worker w) = some t) :
    s.tmThreadPool.workerStep w = some t.tmThreadPool := by
  unfold TimerSystem.step at h
  split at h
  · cases h
  · obtain ⟨pool, hpool, rfl⟩ := Option.map_eq_some_iff.mp h
    exact hpool

/-! ### The destructor -/

/-- A worker that has returned stays so in every step of the timer. -/
theorem done_of_step (h : s.step a = some t) {w : Nat}
    (hdone : s.tmThreadPool.tpPool[w]? = some .done) : t.tmThreadPool.tpPool[w]? = some .done := by
  cases step_inversion h with
  | postTask now callback late pool at_ emplaced =>
    unfold Threadpool.emplace at emplaced
    split at emplaced
    · cases emplaced
      exact hdone
    · cases emplaced
  | notify who pool at_ notified => exact (Threadpool.notified_notifyOne notified).done w hdone
  | worker v pool moved =>
    obtain ⟨pc, pc', hstep⟩ := Threadpool.workerStep_inversion moved
    have hne : v ≠ w := by
      rintro rfl
      rw [hstep.at_] at hdone
      exact hstep.alive (Option.some.inj hdone)
    show pool.tpPool[w]? = some .done
    rw [hstep.pool, List.getElem?_set_ne hne]
    exact hdone
  | destroyPool a pool pc pc' pc'' moved =>
    unfold Threadpool.destructorStep at moved
    split at moved
    · cases moved
      exact hdone
    · cases moved
      exact (Threadpool.notified_notifyAll _).done w hdone
    · split at moved <;> cases moved <;> exact hdone
    · cases moved
    · cases moved
  | _ => exact hdone

/-- The workers that `~Threadpool` has joined have returned. -/
def Joined (s : TimerSystem) : Prop :=
  match s.destructor with
  | .pool (.join k) => ∀ w < k, s.tmThreadPool.tpPool[w]? = some .done
  | .returned => ∀ (w : Nat) pc, s.tmThreadPool.tpPool[w]? = some pc → pc = WorkerPc.done
  | _ => True

/-- Nothing runs once `~Timer` has returned. -/
theorem not_returned_of_step (h : s.step a = some t) :
    s.destructor ≠ .returned := by
  intro hreturned
  unfold TimerSystem.step at h
  rw [if_pos hreturned] at h
  cases h

/-- Only its own steps move the destructor. -/
theorem destructor_of_step (h : s.step a = some t)
    (hother : a ≠ .destroy ∧ a ≠ .destructor) : t.destructor = s.destructor := by
  cases stopStep_of_step h with
  | start | run k call => rfl
  | runStep k now t moved => exact (sameDestructor_runStep moved).destructor
  | other a t same tick queue calls => exact same.destructor
  | tick a t frame => exact frame.same.destructor
  | destroy => exact absurd rfl hother.1
  | stop | notify at_ | joined pool pc at_ => exact absurd rfl hother.2

/-- One more worker is joined. -/
theorem done_succ {pool : Threadpool Nat} {k : Nat}
    (h : ∀ w < k, pool.tpPool[w]? = some WorkerPc.done) (hdone : pool.tpPool[k]? = some .done) :
    ∀ w < k + 1, pool.tpPool[w]? = some WorkerPc.done := by
  intro w hw
  by_cases hk : w = k
  · rw [hk]
    exact hdone
  · exact h w (by omega)

/-- All workers are joined. -/
theorem all_done {pool : Threadpool Nat} {k : Nat}
    (h : ∀ w < k, pool.tpPool[w]? = some WorkerPc.done) (hend : pool.tpPool[k]? = none) :
    ∀ (w : Nat) pc, pool.tpPool[w]? = some pc → pc = WorkerPc.done := by
  intro w pc hw
  have hlt : w < k := by
    have hlength := List.getElem?_eq_none_iff.mp hend
    have hbound := (List.getElem?_eq_some_iff.mp hw).1
    omega
  rw [h w hlt] at hw
  exact (Option.some.inj hw).symm

/-- A step of `~Threadpool` joins only a worker that has returned. -/
theorem Joined.destructorStep (h : s.Joined)
    (hstep : s.destructorStep = some t) : t.Joined := by
  unfold TimerSystem.destructorStep at hstep
  split at hstep
  · cases hstep
    trivial
  · cases hstep
    trivial
  · split at hstep
    · cases hstep
      trivial
    · cases hstep
  · next pc hpc =>
    obtain ⟨⟨pool, pc'⟩, hpool, rfl⟩ := Option.map_eq_some_iff.mp hstep
    unfold Threadpool.destructorStep at hpool
    split at hpool
    · cases hpool
      trivial
    · cases hpool
      intro w hw
      omega
    · next k =>
      rw [Joined, hpc] at h
      split at hpool
      · next hend =>
        cases hpool
        exact all_done h hend
      · next hdone =>
        cases hpool
        exact done_succ h hdone
      · cases hpool
    · cases hpool
    · cases hpool
  · cases hstep
  · cases hstep

/-- A step joins only a worker that has returned. -/
theorem Joined.step (h : s.Joined) (hstep : s.step a = some t) : t.Joined := by
  by_cases hown : a ≠ .destroy ∧ a ≠ .destructor
  · have hsame := destructor_of_step hstep hown
    unfold Joined at h ⊢
    rw [hsame]
    split
    · next k hk =>
      rw [hk] at h
      intro w hw
      exact done_of_step hstep (h w hw)
    · next hreturned => exact absurd hreturned (not_returned_of_step hstep)
    · trivial
  · have hlive := not_returned_of_step hstep
    unfold TimerSystem.step at hstep
    rw [if_neg hlive] at hstep
    have hcases : a = .destroy ∨ a = .destructor := by
      by_contra hneither
      exact hown (not_or.mp hneither)
    rcases hcases with rfl | rfl
    · simp only [Option.ite_none_right_eq_some, Option.some.injEq] at hstep
      obtain ⟨-, rfl⟩ := hstep
      trivial
    · exact h.destructorStep hstep

/-- Before the destructor. -/
theorem joined_init : init.Joined := trivial

end TimerSystem

end ConcurrentServer.Timer
