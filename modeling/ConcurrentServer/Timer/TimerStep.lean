import ConcurrentServer.Timer.Timer

/-!
# Steps of the timer

What a step of `TimerSystem.step` can do, one constructor for each statement; the moves of the
tick thread that change nothing but its place and `tm_mutex` are collected in `TickMove`. From
this, `tm_mutex` excludes.
-/

namespace ConcurrentServer.Timer
open ConcurrentServer.Base
open ConcurrentServer.Pool (Threadpool)

namespace TimerSystem

/-- The tick thread moves to `pc` and leaves `tm_mutex` to the holder. -/
inductive TickMove (s : TimerSystem) : TickPc → Option Holder → Prop
  | start (at_ : s.tick = .idle) : TickMove s .head s.tmMutex
  | enter (at_ : s.tick = .head) : TickMove s .lock s.tmMutex
  | leave (at_ : s.tick = .head) : TickMove s .done s.tmMutex
  | lock (at_ : s.tick = .lock) (free : s.tmMutex = none) : TickMove s .empty (some .tick)
  | empty (at_ : s.tick = .empty) (queue : s.tmQueue = []) : TickMove s .wait s.tmMutex
  | some_ (at_ : s.tick = .empty) : TickMove s .top s.tmMutex
  | wait (at_ : s.tick = .wait) : TickMove s (.waiting false) none
  | woken (notified : Bool) (at_ : s.tick = .waiting notified) (free : s.tmMutex = none) :
    TickMove s .head s.tmMutex
  | early (n : TimerNode) (at_ : s.tick = .top) (top : IsTop n s.tmQueue) :
    TickMove s (.waitFor n) s.tmMutex
  | due (n : TimerNode) (at_ : s.tick = .top) (top : IsTop n s.tmQueue) :
    TickMove s (.pop n) s.tmMutex
  | waitFor (n : TimerNode) (at_ : s.tick = .waitFor n) : TickMove s (.waitingFor n false) none
  | wokenFor (n : TimerNode) (notified : Bool) (at_ : s.tick = .waitingFor n notified)
    (free : s.tmMutex = none) : TickMove s .head s.tmMutex
  | found (n : TimerNode) (late : Bool) (at_ : s.tick = .isKeyExist n late)
    (key : s.tmIdStateMap.isKeyExist n.tnId = true) : TickMove s (.rearm n late) s.tmMutex
  | unlock (callback : Nat) (late : Bool) (at_ : s.tick = .unlock callback late) :
    TickMove s (.post callback late) none
  | post (callback : Nat) (late : Bool) (at_ : s.tick = .post callback late) :
    TickMove s (.emplace callback late) s.tmMutex

/-- The statements of the timer's threads. -/
inductive Step (s : TimerSystem) : TimerAction → TimerSystem → Prop
  | run (k : Nat) (call : RunCall) (at_ : s.calls k = .idle) :
    Step s (.run k call) (s.setCall k (.fetchAdd call))
  | fetchAdd (k : Nat) (now : Int) (call : RunCall) (at_ : s.calls k = .fetchAdd call) :
    Step s (.runStep k now)
      { s.setCall k (.emplace call (counter32 s.tmCount)) with tmCount := s.tmCount + 1 }
  | emplace (k : Nat) (now : Int) (call : RunCall) (id : Int) (at_ : s.calls k = .emplace call id) :
    Step s (.runStep k now)
      { s.setCall k (.lock call (call.node k id now)) with
        tmIdStateMap := s.tmIdStateMap.emplace id .running
        emplaced := s.emplaced ++ [id] }
  | lockCall (k : Nat) (now : Int) (call : RunCall) (n : TimerNode)
    (at_ : s.calls k = .lock call n) (free : s.tmMutex = none) :
    Step s (.runStep k now) { s.setCall k (.push call n) with tmMutex := some (.call k) }
  | push (k : Nat) (now : Int) (call : RunCall) (n : TimerNode) (at_ : s.calls k = .push call n) :
    Step s (.runStep k now) { s.setCall k (.notify call n) with tmQueue := n :: s.tmQueue }
  | notifyCall (k : Nat) (now : Int) (call : RunCall) (n : TimerNode)
    (at_ : s.calls k = .notify call n) :
    Step s (.runStep k now) { s.setCall k (.unlock call n) with tick := s.tick.notified }
  | unlockCall (k : Nat) (now : Int) (call : RunCall) (n : TimerNode)
    (at_ : s.calls k = .unlock call n) :
    Step s (.runStep k now) { s.setCall k (.returned call n) with tmMutex := none }
  | cancel (c : Nat) (id : Int) (at_ : s.cancels c = .idle) :
    Step s (.cancel c id) (s.setCancel c (.test id (s.emplaced.contains id)))
  | cancelTest (c : Nat) (id : Int) (known : Bool) (at_ : s.cancels c = .test id known) :
    Step s (.cancelStep c)
      (s.setCancel c (if s.tmIdStateMap.isKeyExist id then .erase id known else .ret id known))
  | cancelErase (c : Nat) (id : Int) (known : Bool) (at_ : s.cancels c = .erase id known) :
    Step s (.cancelStep c)
      { s.setCancel c (.ret id known) with
        tmIdStateMap := s.tmIdStateMap.erase id
        erased := s.erased ++ [id] }
  | cancelRet (c : Nat) (id : Int) (known : Bool) (at_ : s.cancels c = .ret id known) :
    Step s (.cancelStep c)
      { s.setCancel c (.returned id known) with
        cancelled := if known then s.cancelled ++ [id] else s.cancelled }
  | tickMove (a : TimerAction) (pc : TickPc) (holder : Option Holder)
    (move : TickMove s pc holder) : Step s a (s.setTick pc holder)
  | pop (now : Int) (n : TimerNode) (at_ : s.tick = .pop n) :
    Step s (.tick now)
      { s with
        tick := .isKeyExist n (s.cancelled.contains n.tnId)
        tmQueue := s.tmQueue.erase n }
  | drop (now : Int) (n : TimerNode) (late : Bool) (at_ : s.tick = .isKeyExist n late)
    (key : s.tmIdStateMap.isKeyExist n.tnId = false) :
    Step s (.tick now) { s.setTick .head none with dropped := s.dropped ++ [n.tnCallback] }
  | rearm (now : Int) (n : TimerNode) (late : Bool) (at_ : s.tick = .rearm n late) :
    Step s (.tick now)
      { s with
        tick := .unlock n.tnCallback late
        tmQueue := (n.rearmed now).toList ++ s.tmQueue
        handledLate :=
          if late && (n.rearmed now).isSome then s.handledLate ++ [n.tnCallback]
          else s.handledLate }
  | postTask (now : Int) (callback : Nat) (late : Bool) (pool : Threadpool Nat)
    (at_ : s.tick = .emplace callback late)
    (emplaced : s.tmThreadPool.emplace callback = some pool) :
    Step s (.tick now)
      { s with
        tick := .notify
        tmThreadPool := pool
        posted := s.posted ++ [callback]
        handledLate := if late then s.handledLate ++ [callback] else s.handledLate }
  | notify (who : Option Nat) (pool : Threadpool Nat) (at_ : s.tick = .notify)
    (notified : s.tmThreadPool.notifyOne who = some pool) :
    Step s (.tickNotify who) { s with tick := .head, tmThreadPool := pool }
  | worker (w : Nat) (pool : Threadpool Nat) (moved : s.tmThreadPool.workerStep w = some pool) :
    Step s (.worker w) { s with tmThreadPool := pool }
  | destructor (a : TimerAction) (running : Bool) (pc : TimerDestructorPc) :
    Step s a { s with tmRunning := running, destructor := pc }
  | notifyTick (a : TimerAction) (pc : TimerDestructorPc) :
    Step s a { s with destructor := pc, tick := s.tick.notified }
  | destroyPool (a : TimerAction) (pool : Threadpool Nat) (pc pc' : Pool.DestructorPc)
    (pc'' : TimerDestructorPc) (moved : s.tmThreadPool.destructorStep pc = some (pool, pc')) :
    Step s a { s with tmThreadPool := pool, destructor := pc'' }

variable {s t : TimerSystem} {a : TimerAction}

/-- Steps of a run call. -/
theorem step_of_runStep {k : Nat} {now : Int} (h : s.runStep k now = some t) :
    Step s (.runStep k now) t := by
  unfold runStep at h
  split at h
  · rename_i call at_
    cases h
    exact .fetchAdd k now call at_
  · rename_i call id at_
    cases h
    exact .emplace k now call id at_
  · rename_i call n at_
    split at h
    · rename_i free
      cases h
      exact .lockCall k now call n at_ free
    · cases h
  · rename_i call n at_
    cases h
    exact .push k now call n at_
  · rename_i call n at_
    cases h
    exact .notifyCall k now call n at_
  · rename_i call n at_
    cases h
    exact .unlockCall k now call n at_
  · cases h
  · cases h

/-- Steps of a call of `cancel`. -/
theorem step_of_cancelStep {c : Nat} (h : s.cancelStep c = some t) : Step s (.cancelStep c) t := by
  unfold cancelStep at h
  split at h
  · rename_i id known at_
    cases h
    exact .cancelTest c id known at_
  · rename_i id known at_
    cases h
    exact .cancelErase c id known at_
  · rename_i id known at_
    cases h
    exact .cancelRet c id known at_
  · cases h
  · cases h

/-- Steps of the tick thread. -/
theorem step_of_tickStep {now : Int} (h : s.tickStep now = some t) : Step s (.tick now) t := by
  unfold tickStep at h
  split at h
  · rename_i at_
    cases h
    split
    · exact .tickMove _ _ _ (.enter at_)
    · exact .tickMove _ _ _ (.leave at_)
  · rename_i at_
    split at h
    · rename_i free
      cases h
      exact .tickMove _ _ _ (.lock at_ free)
    · cases h
  · rename_i at_
    cases h
    split
    · rename_i hempty
      exact .tickMove _ _ _ (.empty at_ (List.isEmpty_iff.mp hempty))
    · exact .tickMove _ _ _ (.some_ at_)
  · rename_i at_
    cases h
    exact .tickMove _ _ _ (.wait at_)
  · rename_i n at_
    cases h
    exact .tickMove _ _ _ (.waitFor n at_)
  · rename_i notified at_
    split at h
    · rename_i free
      cases h
      exact .tickMove _ _ _ (.woken notified at_ free)
    · cases h
  · rename_i n notified at_
    split at h
    · rename_i free
      cases h
      exact .tickMove _ _ _ (.wokenFor n notified at_ free)
    · cases h
  · rename_i n at_
    cases h
    exact .pop now n at_
  · rename_i n late at_
    split at h
    · rename_i key
      cases h
      exact .tickMove _ _ _ (.found n late at_ key)
    · rename_i key
      cases h
      exact .drop now n late at_ (Bool.eq_false_of_not_eq_true key)
  · rename_i n late at_
    cases h
    exact .rearm now n late at_
  · rename_i callback late at_
    cases h
    exact .tickMove _ _ _ (.unlock callback late at_)
  · rename_i callback late at_
    split at h
    · cases h
      exact .tickMove _ _ _ (.post callback late at_)
    · cases h
  · rename_i callback late at_
    obtain ⟨pool, hpool, rfl⟩ := Option.map_eq_some_iff.mp h
    exact .postTask now callback late pool at_ hpool
  all_goals cases h

/-- Steps of the destructor. -/
theorem step_of_destructorStep (h : s.destructorStep = some t) : Step s .destructor t := by
  unfold destructorStep at h
  split at h
  · cases h
    exact .destructor _ false _
  · cases h
    exact .notifyTick _ _
  · split at h
    · cases h
      exact .destructor _ s.tmRunning _
    · cases h
  · rename_i pc at_
    obtain ⟨⟨pool, pc'⟩, hpool, rfl⟩ := Option.map_eq_some_iff.mp h
    exact .destroyPool _ pool pc pc' _ hpool
  · cases h
  · cases h

/-- Every step is one of these. -/
theorem step_inversion (h : s.step a = some t) : Step s a t := by
  unfold step at h
  split at h
  · cases h
  cases a with
  | start =>
    simp only [Option.ite_none_right_eq_some, Option.some.injEq] at h
    obtain ⟨at_, rfl⟩ := h
    exact .tickMove _ _ _ (.start at_)
  | run k call =>
    simp only [Option.ite_none_right_eq_some, Option.some.injEq] at h
    obtain ⟨at_, rfl⟩ := h
    exact .run k call at_
  | runStep k now => exact step_of_runStep h
  | cancel c id =>
    simp only [Option.ite_none_right_eq_some, Option.some.injEq] at h
    obtain ⟨at_, rfl⟩ := h
    exact .cancel c id at_
  | cancelStep c => exact step_of_cancelStep h
  | tick now => exact step_of_tickStep h
  | tickTop n now =>
    simp only [tickTopStep, Option.ite_none_right_eq_some, Option.some.injEq] at h
    obtain ⟨⟨at_, top⟩, rfl⟩ := h
    split
    · exact .tickMove _ _ _ (.early n at_ top)
    · exact .tickMove _ _ _ (.due n at_ top)
  | tickNotify who =>
    simp only [tickNotifyStep, Option.ite_none_right_eq_some] at h
    obtain ⟨at_, hmap⟩ := h
    obtain ⟨pool, hpool, rfl⟩ := Option.map_eq_some_iff.mp hmap
    exact .notify who pool at_ hpool
  | worker w =>
    obtain ⟨pool, hpool, rfl⟩ := Option.map_eq_some_iff.mp h
    exact .worker w pool hpool
  | destroy =>
    simp only [Option.ite_none_right_eq_some, Option.some.injEq] at h
    obtain ⟨-, rfl⟩ := h
    exact .destructor _ s.tmRunning _
  | destructor => exact step_of_destructorStep h

/-! ### Mutual exclusion -/

/-- Whoever is inside a critical section of `tm_mutex` is its holder. -/
structure Exclusive (s : TimerSystem) : Prop where
  tick : s.tick.holds = true → s.tmMutex = some .tick
  call : ∀ k, (s.calls k).holds = true → s.tmMutex = some (.call k)

/-- Before the first step. -/
theorem exclusive_init : init.Exclusive := by
  constructor
  · intro h
    cases h
  · intro k h
    cases h

@[simp] theorem holds_notified (pc : TickPc) : pc.notified.holds = pc.holds := by
  cases pc <;> rfl

@[simp] theorem inHand_notified (pc : TickPc) : pc.notified.inHand = pc.inHand := by
  cases pc <;> rfl

@[simp] theorem posting_notified (pc : TickPc) : pc.notified.posting = pc.posting := by
  cases pc <;> rfl

/-- While the tick thread holds the mutex, no call does. -/
theorem Exclusive.not_call (h : s.Exclusive) (held : s.tick.holds = true) (k : Nat) :
    (s.calls k).holds = false := by
  apply Bool.eq_false_of_not_eq_true
  intro hcall
  have htick := h.tick held
  rw [h.call k hcall] at htick
  cases htick

/-- While a call holds the mutex, the tick thread does not. -/
theorem Exclusive.not_tick (h : s.Exclusive) {k : Nat} (held : (s.calls k).holds = true) :
    s.tick.holds = false := by
  apply Bool.eq_false_of_not_eq_true
  intro htick
  have hcall := h.not_call htick k
  rw [held] at hcall
  cases hcall

/-- Mutual exclusion, after a call has moved and left the mutex to a holder. -/
theorem exclusive_setCall {k : Nat} {pc : RunPc} {holder : Option Holder}
    (tick : s.tick.holds = true → holder = some .tick)
    (self : pc.holds = true → holder = some (.call k))
    (others : ∀ k', k' ≠ k → (s.calls k').holds = true → holder = some (.call k')) :
    { s.setCall k pc with tmMutex := holder }.Exclusive := by
  refine ⟨tick, ?_⟩
  intro k' hk'
  have hupdate : (Function.update s.calls k pc k').holds = true := hk'
  by_cases hk : k' = k
  · rw [hk, Function.update_self] at hupdate
    rw [hk]
    exact self hupdate
  · rw [Function.update_of_ne hk] at hupdate
    exact others k' hk hupdate

/-- Mutual exclusion, after a call has moved outside the critical section. -/
theorem Exclusive.outside (h : s.Exclusive) {k : Nat} {pc : RunPc} (hpc : pc.holds = false) :
    (s.setCall k pc).Exclusive := by
  apply exclusive_setCall h.tick
  · intro hold
    rw [hpc] at hold
    cases hold
  · intro k' _ hk'
    exact h.call k' hk'

/-- Mutual exclusion, after a call has moved inside the critical section. -/
theorem Exclusive.inside (h : s.Exclusive) {k : Nat} (held : (s.calls k).holds = true)
    {pc : RunPc} : (s.setCall k pc).Exclusive := by
  apply exclusive_setCall h.tick
  · intro _
    exact h.call k held
  · intro k' _ hk'
    exact h.call k' hk'

/-- Mutual exclusion, after the tick thread has moved. -/
theorem Exclusive.tickMove (h : s.Exclusive) {pc : TickPc} {holder : Option Holder}
    (move : TickMove s pc holder) : (s.setTick pc holder).Exclusive := by
  have release {at_ : TickPc} (hat : s.tick = at_) (held : at_.holds = true) :
      ∀ k, (s.calls k).holds = true → (none : Option Holder) = some (.call k) := by
    intro k hk
    rw [h.not_call (by rw [hat]; exact held) k] at hk
    cases hk
  have keep {at_ : TickPc} (hat : s.tick = at_) (held : at_.holds = true) :
      s.tmMutex = some .tick := h.tick (by rw [hat]; exact held)
  cases move with
  | start at_ | enter at_ | leave at_ | woken notified at_ free | wokenFor n notified at_ free
  | post callback late at_ => exact ⟨fun hold ↦ absurd hold Bool.false_ne_true, h.call⟩
  | lock at_ free =>
    refine ⟨fun _ ↦ rfl, ?_⟩
    intro k hk
    have hcall := h.call k hk
    rw [free] at hcall
    cases hcall
  | empty at_ queue | some_ at_ | early n at_ top | due n at_ top | found n late at_ key =>
    exact ⟨fun _ ↦ keep at_ rfl, h.call⟩
  | wait at_ | waitFor n at_ | unlock callback late at_ =>
    exact ⟨fun hold ↦ absurd hold Bool.false_ne_true, release at_ rfl⟩

/-- Every step keeps mutual exclusion. -/
theorem Exclusive.step (h : s.Exclusive) (hstep : Step s a t) : t.Exclusive := by
  cases hstep with
  | run k call at_ => exact h.outside rfl
  | fetchAdd k now call at_ =>
    have hcall : (s.setCall k (.emplace call (counter32 s.tmCount))).Exclusive := h.outside rfl
    exact ⟨hcall.tick, hcall.call⟩
  | emplace k now call id at_ =>
    have hcall : (s.setCall k (.lock call (call.node k id now))).Exclusive := h.outside rfl
    exact ⟨hcall.tick, hcall.call⟩
  | lockCall k now call n at_ free =>
    apply exclusive_setCall
    · intro hold
      have htick := h.tick hold
      rw [free] at htick
      cases htick
    · intro _
      rfl
    · intro k' _ hk'
      have hcall := h.call k' hk'
      rw [free] at hcall
      cases hcall
  | push k now call n at_ =>
    have held : (s.calls k).holds = true := by rw [at_]; rfl
    have hcall : (s.setCall k (.notify call n)).Exclusive := h.inside held
    exact ⟨hcall.tick, hcall.call⟩
  | notifyCall k now call n at_ =>
    have held : (s.calls k).holds = true := by rw [at_]; rfl
    have hcall : (s.setCall k (.unlock call n)).Exclusive := h.inside held
    refine ⟨?_, hcall.call⟩
    intro hold
    rw [show _ = s.tick.holds from holds_notified s.tick] at hold
    exact h.tick hold
  | unlockCall k now call n at_ =>
    have held : (s.calls k).holds = true := by rw [at_]; rfl
    apply exclusive_setCall
    · intro hold
      rw [h.not_tick held] at hold
      cases hold
    · intro hold
      cases hold
    · intro k' hne hk'
      have hcall := h.call k held
      rw [h.call k' hk'] at hcall
      cases hcall
      exact absurd rfl hne
  | tickMove a pc holder move => exact h.tickMove move
  | pop now n at_ => exact ⟨fun _ ↦ h.tick (by rw [at_]; rfl), h.call⟩
  | drop now n late at_ key =>
    refine ⟨fun hold ↦ absurd hold Bool.false_ne_true, ?_⟩
    intro k hk
    have hcall : (s.calls k).holds = true := hk
    rw [h.not_call (by rw [at_]; rfl) k] at hcall
    cases hcall
  | rearm now n late at_ => exact ⟨fun _ ↦ h.tick (by rw [at_]; rfl), h.call⟩
  | postTask now callback late pool at_ emplaced =>
    exact ⟨fun hold ↦ absurd hold Bool.false_ne_true, h.call⟩
  | notify who pool at_ notified => exact ⟨fun hold ↦ absurd hold Bool.false_ne_true, h.call⟩
  | notifyTick a pc =>
    refine ⟨?_, h.call⟩
    intro hold
    rw [show _ = s.tick.holds from holds_notified s.tick] at hold
    exact h.tick hold
  | cancel | cancelTest | cancelErase | cancelRet | worker | destructor | destroyPool =>
    exact ⟨h.tick, h.call⟩

/-- `tm_mutex` excludes in every reached state. -/
theorem exclusive_of_reach (h : Reach TimerSystem.step init s) : s.Exclusive := by
  apply h.invariant exclusive_init
  intro s a t hs _ hstep
  exact hs.step (step_inversion hstep)

end TimerSystem

end ConcurrentServer.Timer
