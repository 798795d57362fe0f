import ConcurrentServer.Net.TimerOps
import ConcurrentServer.Pool.Executions
import ConcurrentServer.Timer.Available
import ConcurrentServer.Timer.Cancel

/-!
# What can be told from outside

`src/timer/timer.h:60–158`. What the users of a timer can tell of its state: the ids that they got,
what they cancelled, which ids are in the table and where each callback is. A call of `run_after`
counts as made when it has got its id, a call of `cancel` when it has dealt with the table. Every
statement of the timer's threads leaves the view as it is, or is one move of it.
-/

namespace ConcurrentServer.Timer
open ConcurrentServer.Base
open ConcurrentServer.Net (TimerStage)
open ConcurrentServer.Pool (Threadpool)

/-- What can be told from outside. -/
@[ext] structure TimerView where
  /-- The id that each run call has got. -/
  ids : Nat → Option Int
  /-- The id that each call of `cancel` has dealt with. -/
  overs : Nat → Option Int
  /-- The number of ids given. -/
  count : Nat
  /-- The ids in the table, or on their way there. -/
  keys : Set Int
  /-- How many times each callback is at each stage. -/
  placed : Nat → TimerStage Unit → Nat

namespace TimerView

/-- One, for callback `k` and `stage`. -/
def one (k : Nat) (stage : TimerStage Unit) (k' : Nat) (stage' : TimerStage Unit) : Nat :=
  if k' = k ∧ stage' = stage then 1 else 0

/-- Call `k` has got an id, and counts as queued. -/
def made (v : TimerView) (k : Nat) : TimerView where
  ids := Function.update v.ids k (some (counter32 v.count))
  overs := v.overs
  count := v.count + 1
  keys := insert (counter32 v.count) v.keys
  placed := fun k' stage ↦ v.placed k' stage + one k .queued k' stage

/-- Call `c` of `cancel` has dealt with `id`. -/
def cancelled (v : TimerView) (c : Nat) (id : Int) : TimerView :=
  { v with overs := Function.update v.overs c (some id), keys := v.keys \ {id} }

/-- Callback `k` has moved from one stage to the next. -/
def moved (v : TimerView) (k : Nat) (before after : TimerStage Unit) : TimerView :=
  { v with placed := fun k' stage ↦
      v.placed k' stage + one k after k' stage - one k before k' stage }

@[simp] theorem ids_made (v : TimerView) (k : Nat) :
    (v.made k).ids = Function.update v.ids k (some (counter32 v.count)) := rfl

@[simp] theorem overs_made (v : TimerView) (k : Nat) : (v.made k).overs = v.overs := rfl

@[simp] theorem ids_cancelled (v : TimerView) (c : Nat) (id : Int) :
    (v.cancelled c id).ids = v.ids := rfl

@[simp] theorem overs_cancelled (v : TimerView) (c : Nat) (id : Int) :
    (v.cancelled c id).overs = Function.update v.overs c (some id) := rfl

/-- The moves. A callback begins only when a worker is free: those that are being executed are
fewer than the workers. -/
inductive Move (v : TimerView) : TimerView → Prop
  | silent : Move v v
  | made (k : Nat) (new : v.ids k = none) : Move v (v.made k)
  | cancelled (c : Nat) (id : Int) (new : v.overs c = none) : Move v (v.cancelled c id)
  | expired (k : Nat) (at_ : 0 < v.placed k .queued) : Move v (v.moved k .queued .popped)
  | passed (k : Nat) (id : Int) (at_ : 0 < v.placed k .popped) (got : v.ids k = some id)
    (key : id ∈ v.keys) : Move v (v.moved k .popped .checked)
  | dropped (k : Nat) (id : Int) (at_ : 0 < v.placed k .popped) (got : v.ids k = some id)
    (key : id ∉ v.keys) : Move v (v.moved k .popped .dropped)
  | posted (k : Nat) (at_ : 0 < v.placed k .checked) : Move v (v.moved k .checked .posted)
  | begun (k : Nat) (at_ : 0 < v.placed k .posted)
    (free : ∀ l : List Nat, l.Nodup → (∀ k ∈ l, 0 < v.placed k (.running ())) →
      l.length < defaultTimerThreadPoolSize) : Move v (v.moved k .posted (.running ()))
  | finished (k : Nat) (at_ : 0 < v.placed k (.running ())) :
    Move v (v.moved k (.running ()) .done)

/-- A view in which one callback has moved on, by what has come and gone. -/
theorem eq_moved {v v' : TimerView} {k : Nat} {before after : TimerStage Unit}
    (ids : v'.ids = v.ids) (overs : v'.overs = v.overs) (count : v'.count = v.count)
    (keys : v'.keys = v.keys)
    (placed : ∀ k' stage, v'.placed k' stage + one k before k' stage =
      v.placed k' stage + one k after k' stage) : v' = v.moved k before after := by
  refine TimerView.ext (y := v.moved k before after) ids overs count keys ?_
  funext k' stage
  have hplaced := placed k' stage
  change v'.placed k' stage = v.placed k' stage + one k after k' stage - one k before k' stage
  omega

/-- A worker has begun with callback `k`. -/
def Begun (v : TimerView) (k : Nat) : Prop := 0 < v.placed k (.running ()) ∨ 0 < v.placed k .done

/-- Where a callback is that does not leave its stage. -/
theorem placed_le_moved {v : TimerView} {k k' : Nat} {before after stage : TimerStage Unit}
    (stays : k' = k → stage ≠ before) :
    v.placed k' stage ≤ (v.moved k before after).placed k' stage := by
  change _ ≤ v.placed k' stage + one k after k' stage - one k before k' stage
  have hone : one k before k' stage = 0 := if_neg fun h ↦ stays h.1 h.2
  omega

/-- A callback that has begun is being executed until it has returned. -/
theorem Begun.move {v v' : TimerView} {k : Nat} (h : v.Begun k) (move : v.Move v') :
    v'.Begun k := by
  have moved {k' : Nat} {before after : TimerStage Unit} (running : before ≠ .running ())
      (done : before ≠ .done) : (v.moved k' before after).Begun k :=
    h.imp (fun h ↦ Nat.lt_of_lt_of_le h (placed_le_moved fun _ ↦ running.symm))
      fun h ↦ Nat.lt_of_lt_of_le h (placed_le_moved fun _ ↦ done.symm)
  cases move with
  | silent => exact h
  | made k' new =>
    exact h.imp (fun h ↦ Nat.lt_of_lt_of_le h (Nat.le_add_right _ _))
      fun h ↦ Nat.lt_of_lt_of_le h (Nat.le_add_right _ _)
  | cancelled c id new => exact h
  | finished k' at_ =>
    by_cases hk : k = k'
    · refine Or.inr ?_
      change 0 < v.placed k .done + one k' .done k .done - one k' (.running ()) k .done
      simp [one, hk]
    · exact h.imp (fun h ↦ Nat.lt_of_lt_of_le h (placed_le_moved fun hk' ↦ absurd hk' hk))
        fun h ↦ Nat.lt_of_lt_of_le h (placed_le_moved fun hk' ↦ absurd hk' hk)
  | _ => exact moved (by simp) (by simp)

end TimerView

/-! ### The view of a timer -/

namespace TickPc

/-- The callback of the node that has been popped and not looked up. -/
def lookedUp : TickPc → List Nat
  | .isKeyExist n _ => [n.tnCallback]
  | _ => []

@[simp] theorem lookedUp_notified (pc : TickPc) : pc.notified.lookedUp = pc.lookedUp := by
  cases pc <;> rfl

end TickPc

namespace RunPc

/-- The id that is about to be entered into the table. -/
def toEnter? : RunPc → Option Int
  | .emplace _ id => some id
  | _ => none

/-- The call has an id, and its node is not in the queue yet. -/
def toQueue : RunPc → Bool
  | .emplace _ _ | .lock _ _ | .push _ _ => true
  | .idle | .fetchAdd _ | .notify _ _ | .unlock _ _ | .returned _ _ => false

/-- The arguments of the call. -/
def call? : RunPc → Option RunCall
  | .fetchAdd call | .emplace call _ | .lock call _ | .push call _ | .notify call _
  | .unlock call _ | .returned call _ => some call
  | .idle => none

end RunPc

namespace TimerAction

/-- The run call that makes the step. -/
def runCall? : TimerAction → Option Nat
  | .run k _ | .runStep k _ => some k
  | _ => none

/-- The call of `cancel` that makes the step. -/
def cancelCall? : TimerAction → Option Nat
  | .cancel c _ | .cancelStep c => some c
  | _ => none

end TimerAction

namespace TimerSystem

/-- How many times the callback of call `k` is at each stage. A call that has its id and has not
pushed its node counts as queued. -/
def placed (s : TimerSystem) (k : Nat) : TimerStage Unit → Nat
  | .queued =>
    s.tmQueue.countP (fun n ↦ n.tnCallback == k) + if (s.calls k).toQueue then 1 else 0
  | .popped => s.tick.lookedUp.count k
  | .checked => s.tick.found.count k
  | .posted => s.tmThreadPool.toBegin k
  | .running () => s.tmThreadPool.inside k
  | .done => s.tmThreadPool.finished.count k
  | .dropped => s.dropped.count k

/-- The ids in the table, or about to be entered. -/
def keys (s : TimerSystem) : Set Int :=
  {id | s.tmIdStateMap.isKeyExist id = true ∨ ∃ k, (s.calls k).toEnter? = some id}

/-- The view. -/
def view (s : TimerSystem) : TimerView where
  ids := fun k ↦ (s.calls k).id?
  overs := fun c ↦ (s.cancels c).over?
  count := s.tmCount
  keys := s.keys
  placed := s.placed

variable {s t : TimerSystem} {a : TimerAction}

/-! ### What a server keeps to -/

/-- How a server uses a timer: its timers expire once, there are fewer than 2³² − 1 of them, and
it cancels −1 or an id that has been entered into the table. -/
def ServerUse (s : TimerSystem) : TimerAction → Prop
  | .run _ call => call.isOneShot = true
  | .runStep _ _ => s.tmCount < 2 ^ 32 - 1
  | .cancel _ id => id = -1 ∨ id ∈ s.emplaced
  | _ => True

instance : ∀ (s : TimerSystem) (a : TimerAction), Decidable (ServerUse s a)
  | _, .run _ call => inferInstanceAs (Decidable (call.isOneShot = true))
  | s, .runStep _ _ => inferInstanceAs (Decidable (s.tmCount < 2 ^ 32 - 1))
  | s, .cancel _ id => inferInstanceAs (Decidable (id = -1 ∨ id ∈ s.emplaced))
  | _, .start | _, .cancelStep _ | _, .tick _ | _, .tickTop _ _ | _, .tickNotify _ | _, .worker _
  | _, .destroy | _, .destructor =>
    inferInstanceAs (Decidable True)

/-- What holds in every state of a timer that a server uses. -/
structure Used (s : TimerSystem) : Prop where
  sound : s.Sound
  balance : s.tmThreadPool.Balance 0
  workers : s.tmThreadPool.tpPool.length = defaultTimerThreadPoolSize
  few : s.tmCount ≤ 2 ^ 32 - 1
  oneShot : ∀ k call, (s.calls k).call? = some call → call.isOneShot = true
  cancels : ∀ c id, (s.cancels c).id? = some id → id = -1 ∨ id ∈ s.emplaced

/-- Before the first step. -/
theorem used_init : init.Used where
  sound := sound_init
  balance := Pool.Threadpool.balance_ofSize _
  workers := List.length_replicate
  few := Nat.zero_le _
  oneShot _ _ h := nomatch h
  cancels _ _ h := nomatch h

/-- What has been entered has been entered for good. -/
theorem Step.emplaced_subset (hstep : Step s a t) : s.emplaced ⊆ t.emplaced := by
  cases hstep with
  | emplace k now call id at_ => exact List.subset_append_left _ _
  | _ => exact List.Subset.refl _

/-- A step keeps the arguments of the calls, or a call is made. -/
theorem Step.call? (hstep : Step s a t) {k : Nat} {call : RunCall}
    (h : (t.calls k).call? = some call) : (s.calls k).call? = some call ∨ a = .run k call := by
  cases hstep with
  | run k' call' at_ =>
    have hupdate : (Function.update s.calls k' (.fetchAdd call') k).call? = some call := h
    by_cases hk : k = k'
    · rw [hk, Function.update_self] at hupdate
      cases hupdate
      exact Or.inr (by rw [hk])
    · rw [Function.update_of_ne hk] at hupdate
      exact Or.inl hupdate
  | fetchAdd k' now call' at_ | emplace k' now call' id at_ | lockCall k' now call' n at_ free
  | push k' now call' n at_ | notifyCall k' now call' n at_ | unlockCall k' now call' n at_ =>
    refine Or.inl (Eq.trans ?_ h)
    exact (apply_update_of_same RunPc.call? (by rw [at_]; rfl) k).symm
  | _ => exact Or.inl h

/-- A step keeps the arguments of the calls of `cancel`, or a call is made. -/
theorem Step.cancel_id? (hstep : Step s a t) {c : Nat} {id : Int}
    (h : (t.cancels c).id? = some id) : (s.cancels c).id? = some id ∨ a = .cancel c id := by
  cases hstep with
  | cancel c' id' at_ =>
    have hupdate : (Function.update s.cancels c' (.test id' _) c).id? = some id := h
    by_cases hc : c = c'
    · rw [hc, Function.update_self] at hupdate
      cases hupdate
      exact Or.inr (by rw [hc])
    · rw [Function.update_of_ne hc] at hupdate
      exact Or.inl hupdate
  | cancelTest c' id' known at_ =>
    refine Or.inl (Eq.trans ?_ h)
    exact (apply_update_of_same CancelPc.id? (by rw [at_]; split <;> rfl) c).symm
  | cancelErase c' id' known at_ | cancelRet c' id' known at_ =>
    refine Or.inl (Eq.trans ?_ h)
    exact (apply_update_of_same CancelPc.id? (by rw [at_]; rfl) c).symm
  | _ => exact Or.inl h

/-- The counter counts the steps that give an id. -/
theorem Step.tmCount_le_succ (hstep : Step s a t) :
    t.tmCount = s.tmCount ∨ t.tmCount = s.tmCount + 1 ∧ ∃ k now, a = .runStep k now := by
  cases hstep with
  | fetchAdd k now call at_ => exact Or.inr ⟨rfl, k, now, rfl⟩
  | _ => exact Or.inl rfl

/-- Every step of a server's use. -/
theorem Used.step (h : s.Used) (hok : s.ServerUse a) (hstep : s.step a = some t) : t.Used := by
  have hmove := step_inversion hstep
  obtain ⟨hbalance, hlength⟩ := h.balance.acts (acts_of_step hstep)
  refine ⟨h.sound.step hmove, hbalance, hlength.trans h.workers, ?_, ?_, ?_⟩
  · have hfew := h.few
    rcases hmove.tmCount_le_succ with hsame | ⟨hsucc, k, now, rfl⟩
    · omega
    · have hlt : s.tmCount < 2 ^ 32 - 1 := hok
      omega
  · intro k call hcall
    rcases hmove.call? hcall with hold | rfl
    · exact h.oneShot k call hold
    · exact hok
  · intro c id hid
    rcases hmove.cancel_id? hid with hold | rfl
    · exact (h.cancels c id hold).imp_right fun hmem ↦ hmove.emplaced_subset hmem
    · exact Or.imp_right (fun hmem ↦ hmove.emplaced_subset hmem) hok

/-! ### Whose step it is -/

/-- A run call is made. -/
theorem setCall_of_run {k : Nat} {call : RunCall} (h : s.step (.run k call) = some t) :
    s.calls k = .idle ∧ t = s.setCall k (.fetchAdd call) := by
  unfold step at h
  rw [Option.ite_none_left_eq_some] at h
  obtain ⟨at_, h⟩ := Option.ite_none_right_eq_some.mp h.2
  cases h
  exact ⟨at_, rfl⟩

/-- A call of `cancel` is made. -/
theorem setCancel_of_cancel {c : Nat} {id : Int} (h : s.step (.cancel c id) = some t) :
    s.cancels c = .idle ∧ t = s.setCancel c (.test id (s.emplaced.contains id)) := by
  unfold step at h
  rw [Option.ite_none_left_eq_some] at h
  obtain ⟨at_, h⟩ := Option.ite_none_right_eq_some.mp h.2
  cases h
  exact ⟨at_, rfl⟩

/-- A step for no run call, or for another one, leaves the call where it is. -/
theorem Step.calls_of_ne (hstep : Step s a t) {k : Nat} (other : a.runCall? ≠ some k) :
    t.calls k = s.calls k := by
  have hne {k' : Nat} (hk : a.runCall? = some k') : k ≠ k' := by
    rintro rfl
    exact other hk
  cases hstep with
  | run k' call at_ => exact Function.update_of_ne (hne rfl) _ _
  | fetchAdd k' now call at_ | emplace k' now call id at_ | lockCall k' now call n at_ free
  | push k' now call n at_ | notifyCall k' now call n at_ | unlockCall k' now call n at_ =>
    exact Function.update_of_ne (hne rfl) _ _
  | _ => rfl

/-- A step for no call of `cancel`, or for another one, leaves the call where it is. -/
theorem Step.cancels_of_ne (hstep : Step s a t) {c : Nat} (other : a.cancelCall? ≠ some c) :
    t.cancels c = s.cancels c := by
  have hne {c' : Nat} (hc : a.cancelCall? = some c') : c ≠ c' := by
    rintro rfl
    exact other hc
  cases hstep with
  | cancel c' id at_ => exact Function.update_of_ne (hne rfl) _ _
  | cancelTest c' id known at_ | cancelErase c' id known at_ | cancelRet c' id known at_ =>
    exact Function.update_of_ne (hne rfl) _ _
  | _ => rfl

/-- A call of `cancel` keeps its argument. -/
theorem Step.cancel_id?_of_some (hstep : Step s a t) {c : Nat} {id : Int}
    (h : (s.cancels c).id? = some id) : (t.cancels c).id? = some id := by
  cases hstep with
  | cancel c' id' at_ =>
    have hne : c ≠ c' := by
      rintro rfl
      rw [at_] at h
      cases h
    rw [← h]
    exact congrArg CancelPc.id? (Function.update_of_ne hne _ _)
  | cancelTest c' id' known at_ =>
    rw [← h]
    exact apply_update_of_same CancelPc.id? (by rw [at_]; split <;> rfl) c
  | cancelErase c' id' known at_ | cancelRet c' id' known at_ =>
    rw [← h]
    exact apply_update_of_same CancelPc.id? (by rw [at_]; rfl) c
  | _ => exact h

/-- Only the worker that is inside a callback leaves it. -/
theorem Step.worker_of_inside (hstep : Step s a t) {k : Nat}
    (fewer : t.tmThreadPool.inside k < s.tmThreadPool.inside k) :
    ∃ w, a = .worker w ∧ s.tmThreadPool.tpPool[w]? = some (.inside k) := by
  cases hstep with
  | worker w pool moved => exact ⟨w, rfl, Threadpool.inside_of_workerStep moved fewer⟩
  | postTask now callback late pool at_ emplaced =>
    refine absurd fewer (Nat.not_lt_of_le (Nat.le_of_eq ?_))
    unfold Threadpool.inside
    rw [(Threadpool.executed_emplace emplaced).1]
  | notify who pool at_ notified =>
    exact absurd fewer
      (Nat.not_lt_of_le (Nat.le_of_eq (Threadpool.inside_of_notifyOne notified k).symm))
  | destroyPool a pool pc pc' pc'' moved =>
    exact absurd fewer
      (Nat.not_lt_of_le (Nat.le_of_eq (Threadpool.inside_of_destructorStep moved k).symm))
  | _ => exact absurd fewer (Nat.lt_irrefl _)

/-! ### Steps that cannot be told -/

/-- The view is as before if what it is read off is. -/
theorem view_congr (ids : ∀ k, (t.calls k).id? = (s.calls k).id?)
    (overs : ∀ c, (t.cancels c).over? = (s.cancels c).over?) (count : t.tmCount = s.tmCount)
    (keys : t.keys = s.keys) (placed : ∀ k stage, t.placed k stage = s.placed k stage) :
    t.view = s.view :=
  TimerView.ext (funext ids) (funext overs) count keys (funext fun k ↦ funext (placed k))

/-- The callbacks are where they were, if the tick thread has the same in hand. -/
theorem placed_tick {k : Nat} {stage : TimerStage Unit} (calls : t.calls = s.calls)
    (queue : t.tmQueue = s.tmQueue) (lookedUp : t.tick.lookedUp = s.tick.lookedUp)
    (found : t.tick.found = s.tick.found) (pool : t.tmThreadPool = s.tmThreadPool)
    (dropped : t.dropped = s.dropped) : t.placed k stage = s.placed k stage := by
  cases stage <;> simp only [placed, calls, queue, lookedUp, found, pool, dropped]

/-- The tick thread is notified. -/
theorem view_notified (calls : t.calls = s.calls) (cancels : t.cancels = s.cancels)
    (count : t.tmCount = s.tmCount) (map : t.tmIdStateMap = s.tmIdStateMap)
    (queue : t.tmQueue = s.tmQueue) (tick : t.tick = s.tick.notified)
    (pool : t.tmThreadPool = s.tmThreadPool) (dropped : t.dropped = s.dropped) :
    t.view = s.view := by
  apply view_congr _ _ count
  · unfold keys
    rw [calls, map]
  · intro k stage
    apply placed_tick calls queue _ _ pool dropped
    · rw [tick, TickPc.lookedUp_notified]
    · rw [tick, found_notified]
  · intro k
    rw [calls]
  · intro c
    rw [cancels]

/-- A run call moves on without getting an id, entering it or pushing its node. -/
theorem view_setCall {k : Nat} {pc : RunPc} (id : pc.id? = (s.calls k).id?)
    (toEnter : pc.toEnter? = (s.calls k).toEnter?) (toQueue : pc.toQueue = (s.calls k).toQueue) :
    (s.setCall k pc).view = s.view := by
  refine view_congr (apply_update_of_same RunPc.id? id) (fun _ ↦ rfl) rfl ?_ ?_
  · have hsame (k' : Nat) : ((s.setCall k pc).calls k').toEnter? = (s.calls k').toEnter? :=
      apply_update_of_same RunPc.toEnter? toEnter k'
    unfold keys
    simp only [hsame]
    rfl
  · intro k' stage
    have hsame : ((s.setCall k pc).calls k').toQueue = (s.calls k').toQueue :=
      apply_update_of_same RunPc.toQueue toQueue k'
    cases stage with
    | queued =>
      unfold placed
      rw [hsame]
      rfl
    | _ => rfl

/-- A call of `cancel` moves on without dealing with the table. -/
theorem view_setCancel {c : Nat} {pc : CancelPc} (same : pc.over? = (s.cancels c).over?) :
    (s.setCancel c pc).view = s.view :=
  view_congr (fun _ ↦ rfl) (apply_update_of_same CancelPc.over? same) rfl rfl fun _ stage ↦ by
    cases stage <;> rfl

/-- The ids that calls are about to enter, when one call has moved on. -/
theorem exists_toEnter_iff {k : Nat} {pc : RunPc} {id : Int} :
    (∃ k', (Function.update s.calls k pc k').toEnter? = some id) ↔
      pc.toEnter? = some id ∨ ∃ k' ≠ k, (s.calls k').toEnter? = some id := by
  constructor
  · rintro ⟨k', hk'⟩
    by_cases hk : k' = k
    · rw [hk, Function.update_self] at hk'
      exact Or.inl hk'
    · rw [Function.update_of_ne hk] at hk'
      exact Or.inr ⟨k', hk, hk'⟩
  · rintro (hpc | ⟨k', hk, hk'⟩)
    · exact ⟨k, by rw [Function.update_self]; exact hpc⟩
    · exact ⟨k', by rw [Function.update_of_ne hk]; exact hk'⟩

/-- A call enters its id. -/
theorem view_emplace {k : Nat} {call : RunCall} {id now : Int}
    (at_ : s.calls k = .emplace call id)
    (calls : t.calls = Function.update s.calls k (.lock call (call.node k id now)))
    (map : t.tmIdStateMap = s.tmIdStateMap.emplace id .running) (cancels : t.cancels = s.cancels)
    (count : t.tmCount = s.tmCount) (queue : t.tmQueue = s.tmQueue) (tick : t.tick = s.tick)
    (pool : t.tmThreadPool = s.tmThreadPool) (dropped : t.dropped = s.dropped) :
    t.view = s.view := by
  apply view_congr _ _ count
  · ext id'
    have hself : (∃ k', (s.calls k').toEnter? = some id') ↔
        id' = id ∨ ∃ k' ≠ k, (s.calls k').toEnter? = some id' := by
      have hiff : (∃ k', (Function.update s.calls k (s.calls k) k').toEnter? = some id') ↔ _ :=
        exists_toEnter_iff
      rw [Function.update_eq_self] at hiff
      rw [hiff, at_, eq_comm (a := id')]
      simp [RunPc.toEnter?]
    unfold keys
    rw [Set.mem_ofPred_eq, Set.mem_ofPred_eq, map, calls, exists_toEnter_iff, hself]
    simp only [HashMap.isKeyExist_emplace, Bool.or_eq_true, decide_eq_true_eq, RunPc.toEnter?,
      reduceCtorEq, false_or]
    tauto
  · intro k' stage
    have hsame : (t.calls k').toQueue = (s.calls k').toQueue := by
      rw [calls]
      exact apply_update_of_same RunPc.toQueue (by rw [at_]; rfl) k'
    cases stage <;> simp only [placed, hsame, queue, tick, pool, dropped]
  · intro k'
    rw [calls]
    apply apply_update_of_same RunPc.id?
    rw [at_]
    exact congrArg some (tnId_node call k id now)
  · intro c
    rw [cancels]

/-- A call pushes its node. -/
theorem Used.view_push (h : s.Used) {k : Nat} {call : RunCall} {n : TimerNode}
    (at_ : s.calls k = .push call n)
    (calls : t.calls = Function.update s.calls k (.notify call n))
    (queue : t.tmQueue = n :: s.tmQueue) (map : t.tmIdStateMap = s.tmIdStateMap)
    (cancels : t.cancels = s.cancels) (count : t.tmCount = s.tmCount) (tick : t.tick = s.tick)
    (pool : t.tmThreadPool = s.tmThreadPool) (dropped : t.dropped = s.dropped) :
    t.view = s.view := by
  obtain ⟨id, now, hn⟩ := h.sound.kept.made k call n (by rw [at_]; rfl)
  have hcallback : n.tnCallback = k := by
    rw [hn]
    cases call <;> rfl
  apply view_congr _ _ count
  · have hsame (k' : Nat) : (t.calls k').toEnter? = (s.calls k').toEnter? := by
      rw [calls]
      exact apply_update_of_same RunPc.toEnter? (by rw [at_]; rfl) k'
    unfold keys
    simp only [hsame, map]
  · intro k' stage
    cases stage with
    | queued =>
      unfold placed
      rw [queue, List.countP_cons, calls, hcallback]
      by_cases hk : k' = k
      · rw [hk, Function.update_self, at_]
        simp [RunPc.toQueue]
      · rw [Function.update_of_ne hk, if_neg (by simpa using Ne.symm hk)]
        rfl
    | _ => simp only [placed, tick, pool, dropped]
  · intro k'
    rw [calls]
    exact apply_update_of_same RunPc.id? (by rw [at_]; rfl) k'
  · intro c
    rw [cancels]

/-! ### Steps that can be told -/

/-- A known id is not about to be entered. -/
theorem Used.not_toEnter (h : s.Used) {id : Int} (known : id = -1 ∨ id ∈ s.emplaced) (k : Nat) :
    (s.calls k).toEnter? ≠ some id := by
  intro henter
  have hid : (s.calls k).id? = some id ∧ (s.calls k).entered? = none := by
    cases hpc : s.calls k with
    | emplace call id' =>
      rw [hpc] at henter
      exact ⟨henter, rfl⟩
    | _ => rw [hpc] at henter; cases henter
  have hfew := h.few
  rcases known with hnone | hmem
  · obtain ⟨i, hi, hcount⟩ := h.sound.numbered.counted k id hid.1
    exact counter32_ne_neg_one (by omega) (hcount.symm.trans hnone)
  · obtain ⟨k', hk'⟩ := (h.sound.numbered.entered id).mp hmem
    obtain rfl := h.sound.numbered.distinct (by omega) id k k' hid.1 (id?_of_entered? hk')
    rw [hid.2] at hk'
    cases hk'

/-- Whether a known id can be seen in the table. -/
theorem Used.mem_keys (h : s.Used) {id : Int} (known : id = -1 ∨ id ∈ s.emplaced) :
    id ∈ s.keys ↔ s.tmIdStateMap.isKeyExist id = true := by
  constructor
  · rintro (hkey | ⟨k, hk⟩)
    · exact hkey
    · exact absurd hk (h.not_toEnter known k)
  · exact Or.inl

/-- The node that is looked up has the id of its call, which is known. -/
theorem Used.got (h : s.Used) {n : TimerNode} {late : Bool} (at_ : s.tick = .isKeyExist n late) :
    (s.calls n.tnCallback).id? = some n.tnId ∧ n.tnId ∈ s.emplaced := by
  obtain ⟨call, m, hpushed, hid, -⟩ := h.sound.kept.of_mem (mem_nodes_of_isKeyExist at_)
  have hentered := entered?_of_pushed? hpushed
  rw [hid]
  exact ⟨id?_of_entered? hentered, (h.sound.numbered.entered _).mpr ⟨_, hentered⟩⟩

/-- A node that a server made is not pushed again. -/
theorem Used.rearmed (h : s.Used) {n : TimerNode} {late : Bool} (at_ : s.tick = .rearm n late)
    (now : Int) : n.rearmed now = none := by
  have hmem : n ∈ s.nodes := by
    apply mem_nodes.mpr
    rw [at_]
    exact Or.inl (List.mem_singleton.mpr rfl)
  obtain ⟨call, m, hpushed, -, hnodes⟩ := h.sound.kept.of_mem hmem
  have hhistory := h.sound.kept.history n.tnCallback
  rw [hnodes] at hhistory
  obtain ⟨call', m', hpushed', -, -, copy⟩ := hhistory.of_cons
  rw [hpushed] at hpushed'
  cases hpushed'
  have hone : call.isOneShot = true := by
    apply h.oneShot n.tnCallback
    cases hpc : s.calls n.tnCallback <;> rw [hpc] at hpushed <;> cases hpushed <;> rfl
  unfold RunCall.isOneShot at hone
  simp only [Bool.and_eq_true, Bool.not_eq_true'] at hone
  unfold TimerNode.rearmed
  rw [copy.period, copy.repeated, hone.1, hone.2]
  rfl

/-- A call of `run_after` gets its id. -/
theorem view_fetchAdd {k : Nat} {call : RunCall} (at_ : s.calls k = .fetchAdd call) :
    { s.setCall k (.emplace call (counter32 s.tmCount)) with tmCount := s.tmCount + 1 }.view =
      s.view.made k := by
  refine TimerView.ext (y := s.view.made k) ?_ rfl rfl ?_ ?_
  · funext k'
    exact Function.apply_update (fun _ ↦ RunPc.id?) s.calls k _ k'
  · ext id
    have hself : (∃ k', (s.calls k').toEnter? = some id) ↔
        ∃ k' ≠ k, (s.calls k').toEnter? = some id := by
      have hiff : (∃ k', (Function.update s.calls k (s.calls k) k').toEnter? = some id) ↔ _ :=
        exists_toEnter_iff
      rw [Function.update_eq_self, at_] at hiff
      rw [hiff]
      simp [RunPc.toEnter?]
    change (s.tmIdStateMap.isKeyExist id = true ∨
      ∃ k', (Function.update s.calls k (.emplace call (counter32 s.tmCount)) k').toEnter? =
        some id) ↔ id = counter32 s.tmCount ∨ s.tmIdStateMap.isKeyExist id = true ∨
          ∃ k', (s.calls k').toEnter? = some id
    rw [exists_toEnter_iff, hself, eq_comm (a := id)]
    simp only [RunPc.toEnter?, Option.some.injEq]
    tauto
  · funext k' stage
    change _ = s.placed k' stage + TimerView.one k .queued k' stage
    unfold TimerView.one
    cases stage with
    | queued =>
      change s.tmQueue.countP _ + (if (Function.update s.calls k
        (.emplace call (counter32 s.tmCount)) k').toQueue then 1 else 0) = s.tmQueue.countP _ +
          (if (s.calls k').toQueue then 1 else 0) + _
      by_cases hk : k' = k
      · rw [hk, Function.update_self, at_]
        simp [RunPc.toQueue]
      · rw [Function.update_of_ne hk]
        simp [hk]
    | _ => simp only [reduceCtorEq, and_false, if_false]; rfl

/-- A call of `cancel` finds that its id is not in the table. -/
theorem Used.view_missing (h : s.Used) {c : Nat} {id : Int} {known : Bool}
    (at_ : s.cancels c = .test id known) (key : s.tmIdStateMap.isKeyExist id = false) :
    (s.setCancel c (.ret id known)).view = s.view.cancelled c id := by
  refine TimerView.ext (y := s.view.cancelled c id) rfl ?_ rfl ?_ ?_
  · funext c'
    exact Function.apply_update (fun _ ↦ CancelPc.over?) s.cancels c _ c'
  · have habsent : id ∉ s.keys := by
      rw [h.mem_keys (h.cancels c id (by rw [at_]; rfl)), key]
      exact Bool.false_ne_true
    exact (Set.sdiff_singleton_eq_self habsent).symm
  · funext k stage
    cases stage <;> rfl

/-- A call of `cancel` erases its id from the table. -/
theorem Used.view_erase (h : s.Used) {c : Nat} {id : Int} {known : Bool}
    (at_ : s.cancels c = .erase id known) :
    { s.setCancel c (.ret id known) with
      tmIdStateMap := s.tmIdStateMap.erase id
      erased := s.erased ++ [id] }.view = s.view.cancelled c id := by
  refine TimerView.ext (y := s.view.cancelled c id) rfl ?_ rfl ?_ ?_
  · funext c'
    exact Function.apply_update (fun _ ↦ CancelPc.over?) s.cancels c _ c'
  · ext id'
    have hnot := h.not_toEnter (h.cancels c id (by rw [at_]; rfl))
    change ((s.tmIdStateMap.erase id).isKeyExist id' = true ∨
      ∃ k, (s.calls k).toEnter? = some id') ↔
        (s.tmIdStateMap.isKeyExist id' = true ∨ ∃ k, (s.calls k).toEnter? = some id') ∧ id' ≠ id
    rw [HashMap.isKeyExist_erase]
    by_cases hid : id' = id
    · rw [hid]
      simp [hnot]
    · simp [hid]
  · funext k stage
    cases stage <;> rfl

end TimerSystem

end ConcurrentServer.Timer
