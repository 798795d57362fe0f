import ConcurrentServer.Base.Int32
import ConcurrentServer.Base.Run
import ConcurrentServer.Pool.Threadpool
import Mathlib.Data.List.Basic
import Mathlib.Logic.Function.Basic

/-!
# The timer

`src/timer/timer.h`, `src/timer/hash_map.h`. The tick thread runs `run_local()` beside any number
of calls of `run_after`, `run_at`, `run_repeated` and `cancel`, the workers of the timer's pool
and the destructor. A step is one statement of one thread; a call reads the clock with its entry
into the id table. Clock readings are arbitrary, and a wait may end at any time. A call of a run
function is named by a number, and the callback that it binds by the number of the call. Time
points are in nanoseconds.
-/

namespace ConcurrentServer.Timer
open ConcurrentServer.Base
open ConcurrentServer.Pool (Threadpool)

/-! ### The id table -/

/-- `hash_map`; `src/timer/hash_map.h:49–51`. -/
structure HashMap (K V : Type) where
  hmMap : K → Option V

namespace HashMap

variable {K V : Type}

/-- An empty map. -/
def empty : HashMap K V := ⟨fun _ ↦ none⟩

/-- `hash_map::emplace`, which overwrites; `src/timer/hash_map.h:12–20`. -/
def emplace [DecidableEq K] (m : HashMap K V) (key : K) (v : V) : HashMap K V :=
  ⟨Function.update m.hmMap key (some v)⟩

/-- `hash_map::erase`; `src/timer/hash_map.h:22–27`. -/
def erase [DecidableEq K] (m : HashMap K V) (key : K) : HashMap K V :=
  ⟨Function.update m.hmMap key none⟩

/-- `hash_map::is_key_exist`; `src/timer/hash_map.h:38–41`. -/
def isKeyExist (m : HashMap K V) (key : K) : Bool := (m.hmMap key).isSome

variable [DecidableEq K] (m : HashMap K V)

@[simp] theorem isKeyExist_emplace (key key' : K) (v : V) :
    (m.emplace key v).isKeyExist key' = (decide (key' = key) || m.isKeyExist key') := by
  by_cases h : key' = key
  · simp [isKeyExist, emplace, h]
  · simp [isKeyExist, emplace, h]

@[simp] theorem isKeyExist_erase (key key' : K) :
    (m.erase key).isKeyExist key' = (decide (key' ≠ key) && m.isKeyExist key') := by
  by_cases h : key' = key
  · simp [isKeyExist, erase, h]
  · simp [isKeyExist, erase, h]

end HashMap

/-- `Timer::IdState`. -/
inductive IdState
  | running
  deriving DecidableEq, Repr

/-! ### Nodes -/

/-- Nanoseconds in a millisecond. -/
def nsPerMs : Int := 1000000

/-- `Timer::TimerNode`; `src/timer/timer.h:23–32`. -/
structure TimerNode where
  tnTmPoint : Int
  tnCallback : Nat
  tnId : Int
  tnRepeatedNum : Int
  tnIsPeriod : Bool
  tnIsRepeated : Bool
  tnPeriod : Int
  deriving DecidableEq, Repr

/-- A call of a run function with its arguments. -/
inductive RunCall
  | runAfter (msTime : Int) (isPeriod : Bool)
  | runAt (timePoint : Int)
  | runRepeated (msTime repeatedNum : Int)
  deriving DecidableEq, Repr

/-- The node `s` that a call fills in; `src/timer/timer.h:62–70, 81–87, 98–106`. The members that
the call leaves uninitialised, which nothing reads, are 0. -/
def RunCall.node (callback : Nat) (id now : Int) : RunCall → TimerNode
  | .runAfter msTime isPeriod =>
    ⟨now + msTime * nsPerMs, callback, id, 0, isPeriod, false, msTime⟩
  | .runAt timePoint => ⟨timePoint, callback, id, 0, false, false, 0⟩
  | .runRepeated msTime repeatedNum =>
    ⟨now + msTime * nsPerMs, callback, id, repeatedNum, false, true, msTime⟩

/-- What is pushed again when a node has expired; `src/timer/timer.h:143–153`. -/
def TimerNode.rearmed (s : TimerNode) (now : Int) : Option TimerNode :=
  if s.tnIsPeriod then some { s with tnTmPoint := now + s.tnPeriod * nsPerMs }
  else if s.tnIsRepeated && decide (s.tnRepeatedNum > 0) then
    some { s with
      tnTmPoint := now + s.tnPeriod * nsPerMs
      tnRepeatedNum := s.tnRepeatedNum - 1 }
  else none

/-- `s` is an element that `tm_queue.top()` can return: a maximal one for `operator<`. -/
def IsTop (s : TimerNode) (tmQueue : List TimerNode) : Prop :=
  s ∈ tmQueue ∧ ∀ x ∈ tmQueue, s.tnTmPoint ≤ x.tnTmPoint

instance (s : TimerNode) (tmQueue : List TimerNode) : Decidable (IsTop s tmQueue) :=
  inferInstanceAs (Decidable (_ ∧ _))

/-! ### Places in the code -/

/-- Where the tick thread is in `run_local`; `src/timer/timer.h:124–158`. `late` says that the id
of the node in hand had been cancelled when the node was popped. -/
inductive TickPc
  /-- `run()` has not been called. -/
  | idle
  /-- Before the test of `while (tm_running.load())`. -/
  | head
  /-- Before `tm_mutex` is taken. -/
  | lock
  /-- Before `if (tm_queue.empty())`. -/
  | empty
  /-- Before `tm_cond.wait(lock)`. -/
  | wait
  /-- In `wait`. -/
  | waiting (notified : Bool)
  /-- Before `tm_queue.top()` and the first reading of the clock. -/
  | top
  /-- Before `tm_cond.wait_for(lock, diff)`. -/
  | waitFor (s : TimerNode)
  /-- In `wait_for`. -/
  | waitingFor (s : TimerNode) (notified : Bool)
  /-- Before `tm_queue.pop()`. -/
  | pop (s : TimerNode)
  /-- Before `is_key_exist(s.tn_id)`. -/
  | isKeyExist (s : TimerNode) (late : Bool)
  /-- Before the tests of the node's kind. -/
  | rearm (s : TimerNode) (late : Bool)
  /-- Before `lock.unlock()`. -/
  | unlock (callback : Nat) (late : Bool)
  /-- In `post_task`, before the test of `tp_run`. -/
  | post (callback : Nat) (late : Bool)
  /-- In `post_task`, before the insertion. -/
  | emplace (callback : Nat) (late : Bool)
  /-- In `post_task`, before `notify_one`. -/
  | notify
  /-- `run_local` has returned. -/
  | done
  deriving DecidableEq, Repr

namespace TickPc

/-- `tm_cond.notify_all()` reaches a tick thread inside a wait. -/
def notified : TickPc → TickPc
  | .waiting _ => .waiting true
  | .waitingFor s _ => .waitingFor s true
  | pc => pc

/-- The tick thread holds `tm_mutex`. -/
def holds : TickPc → Bool
  | .empty | .wait | .top | .waitFor _ | .pop _ | .isKeyExist _ _ | .rearm _ _ | .unlock _ _ => true
  | .idle | .head | .lock | .waiting _ | .waitingFor _ _ | .post _ _ | .emplace _ _ | .notify
  | .done => false

/-- The node that was popped and neither dropped nor tested for its kind. -/
def inHand : TickPc → List TimerNode
  | .isKeyExist s _ | .rearm s _ => [s]
  | _ => []

/-- The callback that is about to be posted. -/
def posting : TickPc → List Nat
  | .unlock callback _ | .post callback _ | .emplace callback _ => [callback]
  | _ => []

/-- Between `lock.unlock()` and the insertion of `post_task`. -/
def betweenUnlockAndPost : TickPc → Bool
  | .post _ _ | .emplace _ _ => true
  | _ => false

end TickPc

/-- Where a call of a run function is. -/
inductive RunPc
  /-- Not called yet. -/
  | idle
  /-- Before `tm_id.fetch_add(1)`. -/
  | fetchAdd (call : RunCall)
  /-- Before `tm_id_state_map.emplace`. -/
  | emplace (call : RunCall) (id : Int)
  /-- Before `tm_mutex` is taken. -/
  | lock (call : RunCall) (s : TimerNode)
  /-- Before `tm_queue.push(s)`, holding `tm_mutex`. -/
  | push (call : RunCall) (s : TimerNode)
  /-- Before `tm_cond.notify_all()`, holding `tm_mutex`. -/
  | notify (call : RunCall) (s : TimerNode)
  /-- Before `tm_mutex` is released. -/
  | unlock (call : RunCall) (s : TimerNode)
  /-- It has returned `s.tn_id`. -/
  | returned (call : RunCall) (s : TimerNode)
  deriving DecidableEq, Repr

namespace RunPc

/-- The call holds `tm_mutex`. -/
def holds : RunPc → Bool
  | .push _ _ | .notify _ _ | .unlock _ _ => true
  | .idle | .fetchAdd _ | .emplace _ _ | .lock _ _ | .returned _ _ => false

/-- The id that the call got. -/
def id? : RunPc → Option Int
  | .emplace _ id => some id
  | .lock _ s | .push _ s | .notify _ s | .unlock _ s | .returned _ s => some s.tnId
  | .idle | .fetchAdd _ => none

/-- The id of the call, once it is in the table. -/
def entered? : RunPc → Option Int
  | .lock _ s | .push _ s | .notify _ s | .unlock _ s | .returned _ s => some s.tnId
  | .idle | .fetchAdd _ | .emplace _ _ => none

/-- The call and the node that it filled in. -/
def made? : RunPc → Option (RunCall × TimerNode)
  | .lock call s | .push call s | .notify call s | .unlock call s | .returned call s =>
    some (call, s)
  | .idle | .fetchAdd _ | .emplace _ _ => none

/-- The call and its node, once the node has been pushed. -/
def pushed? : RunPc → Option (RunCall × TimerNode)
  | .notify call s | .unlock call s | .returned call s => some (call, s)
  | .idle | .fetchAdd _ | .emplace _ _ | .lock _ _ | .push _ _ => none

/-- The call has pushed its node and not notified the tick thread yet. -/
def inserting : RunPc → Bool
  | .notify _ _ => true
  | .idle | .fetchAdd _ | .emplace _ _ | .lock _ _ | .push _ _ | .unlock _ _ | .returned _ _ =>
    false

end RunPc

/-- Where a call of `cancel` is. `known` says that its id was in use when it was made: a run call
had entered it into the table. -/
inductive CancelPc
  /-- Not called yet. -/
  | idle
  /-- Before `is_key_exist(id)`. -/
  | test (id : Int) (known : Bool)
  /-- Before `erase(id)`. -/
  | erase (id : Int) (known : Bool)
  /-- Before the return. -/
  | ret (id : Int) (known : Bool)
  /-- It has returned. -/
  | returned (id : Int) (known : Bool)
  deriving DecidableEq, Repr

namespace CancelPc

/-- The argument of the call. -/
def id? : CancelPc → Option Int
  | .idle => none
  | .test id _ | .erase id _ | .ret id _ | .returned id _ => some id

/-- The argument of the call, if it was in use when the call was made. -/
def known? : CancelPc → Option Int
  | .test id known | .erase id known | .ret id known | .returned id known =>
    if known then some id else none
  | .idle => none

/-- The argument of the call, once the table has been dealt with. -/
def over? : CancelPc → Option Int
  | .ret id _ | .returned id _ => some id
  | .idle | .test _ _ | .erase _ _ => none

end CancelPc

/-- Where the destructor is; `src/timer/timer.h:42–50` and, for the member, that of the pool. -/
inductive TimerDestructorPc
  /-- Not called yet. -/
  | idle
  /-- Before `tm_running.store(false)`. -/
  | stop
  /-- Before `notify_all`. -/
  | notify
  /-- In the join of the tick thread. -/
  | join
  /-- In the destructor of `tm_thread_pool`. -/
  | pool (pc : Pool.DestructorPc)
  /-- It has returned. -/
  | returned
  deriving DecidableEq, Repr

/-- Who holds `tm_mutex`. -/
inductive Holder
  | tick
  | call (k : Nat)
  deriving DecidableEq, Repr

/-! ### The timer and the threads at work on it -/

/-- `Timer`; `src/timer/timer.h:160–168`. `tmCount` counts the increments of `tm_id`. -/
structure TimerSystem where
  tmQueue : List TimerNode
  tmRunning : Bool
  tmMutex : Option Holder
  tick : TickPc
  tmThreadPool : Threadpool Nat
  tmCount : Nat
  tmIdStateMap : HashMap Int IdState
  calls : Nat → RunPc
  cancels : Nat → CancelPc
  destructor : TimerDestructorPc
  /-- The ids ever entered into the table. -/
  emplaced : List Int
  /-- The ids that calls of `cancel` have erased from the table. -/
  erased : List Int
  /-- The ids in use for which a call of `cancel` has returned. -/
  cancelled : List Int
  /-- The callbacks that the tick thread has posted, in order. -/
  posted : List Nat
  /-- The callbacks of the nodes dropped for want of their id, in order. -/
  dropped : List Nat
  /-- The callbacks re-armed or posted though cancelled before the node was popped. -/
  handledLate : List Nat

/-- What can happen next. -/
inductive TimerAction
  /-- `run()`. -/
  | start
  /-- The run call `k` is made. -/
  | run (k : Nat) (call : RunCall)
  /-- The next statement of run call `k`; the clock reads `now`. -/
  | runStep (k : Nat) (now : Int)
  /-- Call `c` of `cancel` is made. -/
  | cancel (c : Nat) (id : Int)
  /-- The next statement of call `c` of `cancel`. -/
  | cancelStep (c : Nat)
  /-- The next statement of the tick thread, or the end of its wait; the clock reads `now`. -/
  | tick (now : Int)
  /-- `tm_queue.top()` returns `s`; the clock reads `now`. -/
  | tickTop (s : TimerNode) (now : Int)
  /-- `notify_one` in `post_task` reaches the worker `notified`, if there is one. -/
  | tickNotify (notified : Option Nat)
  /-- The next statement of worker `w` of the pool. -/
  | worker (w : Nat)
  /-- The destructor begins. -/
  | destroy
  /-- The next statement of the destructor. -/
  | destructor
  deriving DecidableEq, Repr

/-- `DEFAULT_TIMER_THREAD_POOL_SIZE`. -/
def defaultTimerThreadPoolSize : Nat := 2

namespace TimerSystem

/-- A timer that has just been constructed; `src/timer/timer.h:36–40`. -/
def init : TimerSystem where
  tmQueue := []
  tmRunning := true
  tmMutex := none
  tick := .idle
  tmThreadPool := .ofSize defaultTimerThreadPoolSize
  tmCount := 0
  tmIdStateMap := .empty
  calls := fun _ ↦ .idle
  cancels := fun _ ↦ .idle
  destructor := .idle
  emplaced := []
  erased := []
  cancelled := []
  posted := []
  dropped := []
  handledLate := []

/-- Run call `k` moves on. -/
def setCall (s : TimerSystem) (k : Nat) (pc : RunPc) : TimerSystem :=
  { s with calls := Function.update s.calls k pc }

/-- Call `c` of `cancel` moves on. -/
def setCancel (s : TimerSystem) (c : Nat) (pc : CancelPc) : TimerSystem :=
  { s with cancels := Function.update s.cancels c pc }

/-- The tick thread moves on and leaves `tm_mutex` to `holder`. -/
def setTick (s : TimerSystem) (pc : TickPc) (holder : Option Holder) : TimerSystem :=
  { s with tick := pc, tmMutex := holder }

/-- `run_after`, `run_at` and `run_repeated`; `src/timer/timer.h:60–113`. -/
def runStep (s : TimerSystem) (k : Nat) (now : Int) : Option TimerSystem :=
  match s.calls k with
  | .fetchAdd call =>
    some { s.setCall k (.emplace call (counter32 s.tmCount)) with tmCount := s.tmCount + 1 }
  | .emplace call id =>
    some { s.setCall k (.lock call (call.node k id now)) with
      tmIdStateMap := s.tmIdStateMap.emplace id .running
      emplaced := s.emplaced ++ [id] }
  | .lock call n =>
    if s.tmMutex = none then
      some { s.setCall k (.push call n) with tmMutex := some (.call k) }
    else none
  | .push call n => some { s.setCall k (.notify call n) with tmQueue := n :: s.tmQueue }
  | .notify call n => some { s.setCall k (.unlock call n) with tick := s.tick.notified }
  | .unlock call n => some { s.setCall k (.returned call n) with tmMutex := none }
  | .idle | .returned _ _ => none

/-- `cancel`; `src/timer/timer.h:115–121`. -/
def cancelStep (s : TimerSystem) (c : Nat) : Option TimerSystem :=
  match s.cancels c with
  | .test id known =>
    some (s.setCancel c (if s.tmIdStateMap.isKeyExist id then .erase id known else .ret id known))
  | .erase id known =>
    some { s.setCancel c (.ret id known) with
      tmIdStateMap := s.tmIdStateMap.erase id
      erased := s.erased ++ [id] }
  | .ret id known =>
    some { s.setCancel c (.returned id known) with
      cancelled := if known then s.cancelled ++ [id] else s.cancelled }
  | .idle | .returned _ _ => none

/-- `run_local`, but for `top()` and `notify_one`; `src/timer/timer.h:124–158`. -/
def tickStep (s : TimerSystem) (now : Int) : Option TimerSystem :=
  match s.tick with
  | .head => some { s with tick := if s.tmRunning then .lock else .done }
  | .lock => if s.tmMutex = none then some (s.setTick .empty (some .tick)) else none
  | .empty => some { s with tick := if s.tmQueue.isEmpty then .wait else .top }
  | .wait => some (s.setTick (.waiting false) none)
  | .waitFor n => some (s.setTick (.waitingFor n false) none)
  | .waiting _ | .waitingFor _ _ =>
    -- the wait takes the mutex back, and `continue` releases it
    if s.tmMutex = none then some { s with tick := .head } else none
  | .pop n =>
    some { s with
      tick := .isKeyExist n (s.cancelled.contains n.tnId)
      tmQueue := s.tmQueue.erase n }
  | .isKeyExist n late =>
    if s.tmIdStateMap.isKeyExist n.tnId then some { s with tick := .rearm n late }
    else some { s.setTick .head none with dropped := s.dropped ++ [n.tnCallback] }
  | .rearm n late =>
    some { s with
      tick := .unlock n.tnCallback late
      tmQueue := (n.rearmed now).toList ++ s.tmQueue
      handledLate :=
        if late && (n.rearmed now).isSome then s.handledLate ++ [n.tnCallback]
        else s.handledLate }
  | .unlock callback late => some (s.setTick (.post callback late) none)
  | .post callback late =>
    -- on a stopped pool `post_task` throws, which ends the process
    if s.tmThreadPool.tpRun then some { s with tick := .emplace callback late } else none
  | .emplace callback late =>
    (s.tmThreadPool.emplace callback).map fun pool ↦
      { s with
        tick := .notify
        tmThreadPool := pool
        posted := s.posted ++ [callback]
        handledLate := if late then s.handledLate ++ [callback] else s.handledLate }
  | .idle | .top | .notify | .done => none

/-- `tm_queue.top()`, `diff` and the test of `diff`; `src/timer/timer.h:131–136`. -/
def tickTopStep (s : TimerSystem) (n : TimerNode) (now : Int) : Option TimerSystem :=
  if s.tick = .top ∧ IsTop n s.tmQueue then
    some { s with tick := if (n.tnTmPoint - now).tdiv nsPerMs > 0 then .waitFor n else .pop n }
  else none

/-- The end of `post_task` in the tick thread. -/
def tickNotifyStep (s : TimerSystem) (notified : Option Nat) : Option TimerSystem :=
  if s.tick = .notify then
    (s.tmThreadPool.notifyOne notified).map fun pool ↦
      { s with tick := .head, tmThreadPool := pool }
  else none

/-- `~Timer`; `src/timer/timer.h:42–50`. -/
def destructorStep (s : TimerSystem) : Option TimerSystem :=
  match s.destructor with
  | .stop => some { s with destructor := .notify, tmRunning := false }
  | .notify => some { s with destructor := .join, tick := s.tick.notified }
  | .join =>
    -- a tick thread that was never started is not joinable
    if s.tick = .idle ∨ s.tick = .done then some { s with destructor := .pool .stop } else none
  | .pool pc =>
    (s.tmThreadPool.destructorStep pc).map fun (pool, pc') ↦
      { s with
        tmThreadPool := pool
        destructor := if pc' = .returned then .returned else .pool pc' }
  | .idle | .returned => none

/-- The step function. Nothing runs after the destructor has returned. -/
def step (s : TimerSystem) (a : TimerAction) : Option TimerSystem :=
  if s.destructor = .returned then none
  else match a with
    | .start => if s.tick = .idle then some { s with tick := .head } else none
    | .run k call => if s.calls k = .idle then some (s.setCall k (.fetchAdd call)) else none
    | .runStep k now => s.runStep k now
    | .cancel c id =>
      if s.cancels c = .idle then some (s.setCancel c (.test id (s.emplaced.contains id))) else none
    | .cancelStep c => s.cancelStep c
    | .tick now => s.tickStep now
    | .tickTop n now => s.tickTopStep n now
    | .tickNotify notified => s.tickNotifyStep notified
    | .worker w => (s.tmThreadPool.workerStep w).map fun pool ↦ { s with tmThreadPool := pool }
    | .destroy => if s.destructor = .idle then some { s with destructor := .stop } else none
    | .destructor => s.destructorStep

end TimerSystem

/-! ### Pieces of runs -/

/-- The statements of one run call, when the clock reads `now`. -/
def runCall (k : Nat) (call : RunCall) (now : Int) : List TimerAction :=
  .run k call :: List.replicate 6 (.runStep k now)

/-- The statements by which the tick thread handles the expiry of node `n`, when no worker waits
and the clock reads `now`. -/
def expiry (n : TimerNode) (now : Int) : List TimerAction :=
  .flatten [[.tick now, .tick now, .tick now, .tickTop n now], .replicate 6 (.tick now),
    [.tickNotify none]]

end ConcurrentServer.Timer
