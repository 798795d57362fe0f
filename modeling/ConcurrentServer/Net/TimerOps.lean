import ConcurrentServer.Base.Run
import ConcurrentServer.Net.ServerTimer

/-!
# The server's timer by itself

`src/timer/timer.h:61–76, 115–158`. The timer that the server's model contains, as a machine of
its own: two operations for its users, each in one piece, and five moves of its threads.
-/

namespace ConcurrentServer.Net
open ConcurrentServer.Base

/-- What can be done with a timer, and what its threads do with node `k`. A call of `cancel` is
named by a number. -/
inductive TimerOp (Job : Type)
  | runAfter (job : Job)
  | cancel (c : Nat) (id : Int)
  | expire (k : Nat)
  | check (k : Nat)
  | post (k : Nat)
  | begin (k : Nat)
  | finish (k : Nat)
  deriving DecidableEq, Repr

variable {Job Pc : Type}

namespace TimerState

/-- The stage of node `k`. -/
def stageOf (s : TimerState Job Pc) (k : Nat) : Option (TimerStage Pc) :=
  (s.nodes k).map TimerNode.stage

/-- The next stage of node `k`, if it is at `before`. -/
def advance [DecidableEq Pc] (s : TimerState Job Pc) (k : Nat) (before after : TimerStage Pc) :
    Option (TimerState Job Pc) :=
  if s.stageOf k = some before then some (s.setStage k after) else none

/-- The step function. -/
def step (s : TimerState Job Unit) : TimerOp Job → Option (TimerState Job Unit)
  | .runAfter job => some (s.runAfter job)
  | .cancel _ id => some (s.cancel id)
  | .expire k => s.advance k .queued .popped
  | .check k =>
    match s.nodes k with
    | some tn => s.advance k .popped (if s.tmIdStateMap tn.tnId then .checked else .dropped)
    | none => none
  | .post k => s.advance k .checked .posted
  | .begin k =>
    if s.busyWorkers < defaultTimerThreadPoolSize then s.advance k .posted (.running ()) else none
  | .finish k => s.advance k (.running ()) .done

/-- How a server uses its timer: it makes fewer than 2³² − 1 nodes, and cancels −1 or an id that
`run_after` has returned. -/
def Uses (s : TimerState Job Unit) : TimerOp Job → Prop
  | .runAfter _ => s.tmCount < 2 ^ 32 - 1
  | .cancel _ id => id = -1 ∨ ∃ k tn, s.nodes k = some tn ∧ tn.tnId = id
  | _ => True

/-- A node moves on. -/
theorem advance_eq_some [DecidableEq Pc] {s : TimerState Job Pc} {k : Nat}
    {tn : TimerNode Job Pc} {before : TimerStage Pc} (node : s.nodes k = some tn)
    (at_ : tn.stage = before) (after : TimerStage Pc) :
    s.advance k before after = some (s.setStage k after) := by
  unfold advance stageOf
  rw [node, Option.map_some, at_, if_pos rfl]

end TimerState

/-! ### Without the places inside the callback -/

/-- The stage without the place inside the callback. -/
def TimerStage.forget : TimerStage Pc → TimerStage Unit
  | .queued => .queued
  | .popped => .popped
  | .checked => .checked
  | .posted => .posted
  | .running _ => .running ()
  | .done => .done
  | .dropped => .dropped

/-- The node without the place inside the callback. -/
def TimerNode.forget (tn : TimerNode Job Pc) : TimerNode Job Unit :=
  ⟨tn.tnId, tn.job, tn.stage.forget⟩

namespace TimerState

/-- The timer without the places inside the callbacks. -/
def forget (s : TimerState Job Pc) : TimerState Job Unit :=
  ⟨fun k ↦ (s.nodes k).map TimerNode.forget, s.tmCount, s.tmIdStateMap⟩

variable {s : TimerState Job Pc}

@[simp] theorem forget_runAfter (job : Job) : (s.runAfter job).forget = s.forget.runAfter job := by
  unfold forget runAfter
  congr 1
  funext k
  by_cases hk : k = s.tmCount
  · simp [hk, TimerNode.forget, TimerStage.forget, nextId]
  · simp [hk]

@[simp] theorem forget_setStage (k : Nat) (stage : TimerStage Pc) :
    (s.setStage k stage).forget = s.forget.setStage k stage.forget := by
  unfold forget setStage
  congr 1
  funext k'
  by_cases hk : k' = k
  · simp only [hk, Function.update_self, Option.map_map]
    rfl
  · simp [hk]

/-- A node that stays at its stage does not move on. -/
theorem setStage_eq_self {s : TimerState Job Pc} {k : Nat} {tn : TimerNode Job Pc}
    (node : s.nodes k = some tn) : s.setStage k tn.stage = s := by
  unfold setStage
  rw [node]
  cases s
  congr 1
  exact Function.update_eq_self_iff.mpr node.symm

@[simp] theorem busyWorkers_forget : s.forget.busyWorkers = s.busyWorkers := by
  unfold busyWorkers forget
  congr 1
  funext k
  dsimp only
  cases s.nodes k with
  | none => rfl
  | some tn =>
    obtain ⟨id, job, stage⟩ := tn
    cases stage <;> rfl

end TimerState

end ConcurrentServer.Net
