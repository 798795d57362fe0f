import ConcurrentServer.Base.Int32
import Mathlib.Data.List.Basic
import Mathlib.Logic.Function.Basic

/-!
# The server's timer

`src/timer/timer.h:61–76, 115–158`, `src/timer/hash_map.h`, as `TcpServer` uses it: every
node is a one-shot node made by `run_after`. A node is named by the order of creation; its
`tn_id` is the 32-bit value of the counter. Time is left out: a queued node may be popped at
any moment and posted callbacks may begin in any order. `cancel` is one step, since nothing
but `run_after` adds to the table. `Job` is what the callback captured, `Pc` a place in it.
-/

namespace ConcurrentServer.Net
open ConcurrentServer.Base

/-- `DEFAULT_TIMER_THREAD_POOL_SIZE`. -/
def defaultTimerThreadPoolSize : Nat := 2

/-- How far a one-shot node has come. -/
inductive TimerStage (Pc : Type)
  /-- In `tm_queue`. -/
  | queued
  /-- Popped by the tick thread, before `is_key_exist`. -/
  | popped
  /-- Its id was in the table; `post_task` comes next. -/
  | checked
  /-- In the queue of the timer's pool. -/
  | posted
  /-- A pool worker is inside the callback. -/
  | running (pc : Pc)
  /-- The callback has returned and the closure is gone. -/
  | done
  /-- Its id was not in the table and the closure is gone. -/
  | dropped
  deriving DecidableEq, Repr

/-- A pool worker has begun the callback. -/
def TimerStage.begun {Pc : Type} : TimerStage Pc → Bool
  | .running _ | .done => true
  | .queued | .popped | .checked | .posted | .dropped => false

/-- The tick thread has let the node through. -/
def TimerStage.fired {Pc : Type} : TimerStage Pc → Bool
  | .checked | .posted | .running _ | .done => true
  | .queued | .popped | .dropped => false

/-- The tick thread has not looked up the id yet. -/
def TimerStage.waiting {Pc : Type} : TimerStage Pc → Bool
  | .queued | .popped => true
  | .checked | .posted | .running _ | .done | .dropped => false

/-- The closure, and what it captured, still exists. -/
def TimerStage.holds {Pc : Type} : TimerStage Pc → Bool
  | .queued | .popped | .checked | .posted | .running _ => true
  | .done | .dropped => false

/-- `Timer::TimerNode`, one-shot. -/
structure TimerNode (Job Pc : Type) where
  tnId : Int
  job : Job
  stage : TimerStage Pc
  deriving DecidableEq, Repr

/-- All nodes made so far, the counter behind `tm_id` and the keys of `tm_id_state_map`. -/
structure TimerState (Job Pc : Type) where
  nodes : Nat → Option (TimerNode Job Pc)
  tmCount : Nat
  tmIdStateMap : Int → Bool

variable {Job Pc : Type}

namespace TimerState

/-- A constructed timer; `src/timer/timer.h:35–40`. -/
def init : TimerState Job Pc := ⟨fun _ ↦ none, 0, fun _ ↦ false⟩

/-- The id that the next `run_after` returns. -/
def nextId (s : TimerState Job Pc) : Int := counter32 s.tmCount

/-- `Timer::run_after`; `src/timer/timer.h:61–76`. -/
def runAfter (s : TimerState Job Pc) (job : Job) : TimerState Job Pc where
  nodes := Function.update s.nodes s.tmCount (some ⟨s.nextId, job, .queued⟩)
  tmCount := s.tmCount + 1
  tmIdStateMap := fun id ↦ if id = s.nextId then true else s.tmIdStateMap id

/-- `Timer::cancel`; `src/timer/timer.h:115–121`. -/
def cancel (s : TimerState Job Pc) (id : Int) : TimerState Job Pc :=
  { s with tmIdStateMap := fun id' ↦ if id' = id then false else s.tmIdStateMap id' }

/-- Node `k` moves on. -/
def setStage (s : TimerState Job Pc) (k : Nat) (stage : TimerStage Pc) : TimerState Job Pc :=
  { s with
    nodes := Function.update s.nodes k ((s.nodes k).map fun tn ↦ { tn with stage := stage }) }

/-- The number of callbacks that pool workers are inside. -/
def busyWorkers (s : TimerState Job Pc) : Nat :=
  (List.range s.tmCount).countP fun k ↦
    match (s.nodes k).map TimerNode.stage with
    | some (.running _) => true
    | _ => false

/-- Node `k` is neither fired nor cancelled: its id is still in the table and the tick thread
has not looked it up. -/
def Live (s : TimerState Job Pc) (k : Nat) (tn : TimerNode Job Pc) : Prop :=
  s.nodes k = some tn ∧ tn.stage.waiting = true ∧ s.tmIdStateMap tn.tnId = true

/-- A callback for `job` has begun. -/
def Begun (s : TimerState Job Pc) (job : Job) : Prop :=
  ∃ k tn, s.nodes k = some tn ∧ tn.job = job ∧ tn.stage.begun = true

/-- A node for `job` has fired. -/
def Fired (s : TimerState Job Pc) (job : Job) : Prop :=
  ∃ k tn, s.nodes k = some tn ∧ tn.job = job ∧ tn.stage.fired = true

/-- `id` is the id of a node for `job`. -/
def IdOf (s : TimerState Job Pc) (job : Job) (id : Int) : Prop :=
  ∃ k tn, s.nodes k = some tn ∧ tn.job = job ∧ tn.tnId = id

/-- Every node is numbered below the counter and carries its number as id. -/
def Numbered (s : TimerState Job Pc) : Prop :=
  ∀ k tn, s.nodes k = some tn → k < s.tmCount ∧ tn.tnId = counter32 k

/-! ### What the operations do to the nodes -/

/-- The nodes after `run_after`. -/
theorem nodes_runAfter (s : TimerState Job Pc) (job : Job) (k : Nat) :
    (s.runAfter job).nodes k =
      if k = s.tmCount then some ⟨s.nextId, job, .queued⟩ else s.nodes k := by
  simp only [runAfter, Function.update_apply]

/-- The table after `run_after`. -/
theorem tmIdStateMap_runAfter (s : TimerState Job Pc) (job : Job) (id : Int) :
    (s.runAfter job).tmIdStateMap id = if id = s.nextId then true else s.tmIdStateMap id := rfl

/-- The table after `cancel`. -/
theorem tmIdStateMap_cancel (s : TimerState Job Pc) (id id' : Int) :
    (s.cancel id).tmIdStateMap id' = if id' = id then false else s.tmIdStateMap id' := rfl

/-- The nodes after one has moved on. -/
theorem nodes_setStage (s : TimerState Job Pc) (k k' : Nat) (stage : TimerStage Pc) :
    (s.setStage k stage).nodes k' =
      if k' = k then (s.nodes k).map fun tn ↦ { tn with stage := stage } else s.nodes k' := by
  simp only [setStage, Function.update_apply]

@[simp] theorem nodes_cancel (s : TimerState Job Pc) (id : Int) :
    (s.cancel id).nodes = s.nodes := rfl

/-- A node after another one (or itself) has moved on: the same node but for its stage. -/
theorem node_of_setStage {s : TimerState Job Pc} {k k' : Nat} {stage : TimerStage Pc}
    {tn : TimerNode Job Pc} (h : (s.setStage k stage).nodes k' = some tn) :
    ∃ tn₀, s.nodes k' = some tn₀ ∧ tn.tnId = tn₀.tnId ∧ tn.job = tn₀.job ∧
      tn.stage = if k' = k then stage else tn₀.stage := by
  rw [nodes_setStage] at h
  by_cases hk : k' = k
  · rw [if_pos hk] at h
    obtain ⟨tn₀, h₀, rfl⟩ := Option.map_eq_some_iff.mp h
    exact ⟨tn₀, hk ▸ h₀, rfl, rfl, by simp [hk]⟩
  · rw [if_neg hk] at h
    exact ⟨tn, h, rfl, rfl, by simp [hk]⟩

/-! ### Ids -/

/-- A constructed timer has no nodes. -/
theorem numbered_init : (init : TimerState Job Pc).Numbered := by
  intro k tn h
  cases h

/-- `run_after` numbers its node. -/
theorem Numbered.runAfter {s : TimerState Job Pc} (h : s.Numbered) (job : Job) :
    (s.runAfter job).Numbered := by
  intro k tn hk
  rw [nodes_runAfter] at hk
  split at hk
  · next he =>
    rw [← Option.some.inj hk, he]
    exact ⟨Nat.lt_succ_self _, by rw [nextId]⟩
  · have := h k tn hk
    exact ⟨Nat.lt_succ_of_lt this.1, this.2⟩

/-- Moving a node on keeps its number. -/
theorem Numbered.setStage {s : TimerState Job Pc} (h : s.Numbered) (k : Nat)
    (stage : TimerStage Pc) : (s.setStage k stage).Numbered := by
  intro k' tn hk
  obtain ⟨tn₀, h₀, hid, -, -⟩ := node_of_setStage hk
  rw [hid]
  exact h k' tn₀ h₀

/-- Below 2³² nodes, equal ids name one node. -/
theorem Numbered.id_inj {s : TimerState Job Pc} (h : s.Numbered) (hb : s.tmCount ≤ 2 ^ 32)
    {k k' : Nat} {tn tn' : TimerNode Job Pc} (hk : s.nodes k = some tn)
    (hk' : s.nodes k' = some tn') (hid : tn.tnId = tn'.tnId) : k = k' := by
  obtain ⟨hlt, he⟩ := h k tn hk
  obtain ⟨hlt', he'⟩ := h k' tn' hk'
  rw [he, he'] at hid
  exact counter32_inj (by omega) (by omega) hid

/-- Below 2³² nodes, the next id is new. -/
theorem Numbered.nextId_fresh {s : TimerState Job Pc} (h : s.Numbered)
    (hb : s.tmCount < 2 ^ 32) {k : Nat} {tn : TimerNode Job Pc} (hk : s.nodes k = some tn) :
    tn.tnId ≠ s.nextId := by
  obtain ⟨hlt, he⟩ := h k tn hk
  rw [he]
  intro hid
  have := counter32_inj (by omega) hb hid
  omega

end TimerState

end ConcurrentServer.Net
