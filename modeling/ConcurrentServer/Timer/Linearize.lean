import ConcurrentServer.Timer.View

/-!
# The timer in one piece

`src/timer/timer.h`, `src/timer/hash_map.h`, `src/threadpool/threadpool.h`. To those who use it as
a server does, the timer with its threads, its lock and its table is the timer of
`ConcurrentServer.Net.TimerState`, on which every call happens in one piece: at the increment of
`tm_id` for `run_after`, and for `cancel` at the erasure, or at the test that finds nothing to
erase.
-/

namespace ConcurrentServer.Timer
open ConcurrentServer.Base
open ConcurrentServer.Net (TimerState TimerStage TimerOp)
open ConcurrentServer.Pool (Threadpool)

namespace TimerSystem

variable {s t : TimerSystem} {a : TimerAction}

/-! ### Every step is a move -/

/-- A view that has not changed. -/
theorem move_of_eq {v v' : TimerView} (h : v' = v) : TimerView.Move v v' := by
  rw [h]
  exact .silent

/-- The tick thread looks up a node, or does not touch what is in its hands. -/
theorem TickMove.view {pc : TickPc} {holder : Option Holder} (move : TickMove s pc holder) :
    (pc.lookedUp = s.tick.lookedUp ∧ pc.found = s.tick.found) ∨
      ∃ n late, s.tick = .isKeyExist n late ∧ pc = .rearm n late ∧
        s.tmIdStateMap.isKeyExist n.tnId = true := by
  cases move with
  | found n late at_ key => exact Or.inr ⟨n, late, at_, rfl, key⟩
  | _ => rename s.tick = _ => at_; exact Or.inl ⟨by rw [at_]; rfl, by rw [at_]; rfl⟩

/-- A callback has moved in the hands of the tick thread. -/
theorem view_eq_moved {k : Nat} {before after : TimerStage Unit} (calls : t.calls = s.calls)
    (cancels : t.cancels = s.cancels) (count : t.tmCount = s.tmCount)
    (map : t.tmIdStateMap = s.tmIdStateMap)
    (placed : ∀ k' stage, t.placed k' stage + TimerView.one k before k' stage =
      s.placed k' stage + TimerView.one k after k' stage) :
    t.view = s.view.moved k before after := by
  apply TimerView.eq_moved _ _ count _ placed
  · funext k'
    change (t.calls k').id? = _
    rw [calls]
    rfl
  · funext c
    change (t.cancels c).over? = _
    rw [cancels]
    rfl
  · change t.keys = s.keys
    unfold keys
    rw [calls, map]

/-- The count of a list of one. -/
theorem count_singleton_eq_one (k k' : Nat) : [k].count k' = if k' = k then 1 else 0 := by
  rw [List.count_singleton]
  simp only [beq_iff_eq, eq_comm (a := k)]

/-- The tick thread finds a node in the table. -/
theorem Used.move_found (h : s.Used) {n : TimerNode} {late : Bool} {holder : Option Holder}
    (at_ : s.tick = .isKeyExist n late) (key : s.tmIdStateMap.isKeyExist n.tnId = true) :
    TimerView.Move s.view (s.setTick (.rearm n late) holder).view := by
  have hview : (s.setTick (.rearm n late) holder).view =
      s.view.moved n.tnCallback .popped .checked := by
    refine view_eq_moved rfl rfl rfl rfl fun k stage ↦ ?_
    unfold TimerView.one
    cases stage with
    | popped =>
      change [].count k + _ = s.tick.lookedUp.count k + _
      rw [at_]
      change _ = [n.tnCallback].count k + _
      rw [count_singleton_eq_one]
      simp
    | checked =>
      change [n.tnCallback].count k + _ = s.tick.found.count k + _
      rw [at_, count_singleton_eq_one]
      simp [TickPc.found]
    | _ => simp only [reduceCtorEq, and_false, if_false]; rfl
  rw [hview]
  obtain ⟨hid, hmem⟩ := h.got at_
  refine .passed n.tnCallback n.tnId ?_ hid (Or.inl key)
  change 0 < s.tick.lookedUp.count n.tnCallback
  rw [at_]
  exact List.count_pos_iff.mpr (List.mem_singleton.mpr rfl)

/-- The tick thread pops a node. -/
theorem Used.move_pop (h : s.Used) {n : TimerNode} {late : Bool} (at_ : s.tick = .pop n) :
    TimerView.Move s.view
      { s with tick := .isKeyExist n late, tmQueue := s.tmQueue.erase n }.view := by
  have hmem := h.sound.kept.popped n at_
  have hcount (k : Nat) : s.tmQueue.countP (fun n ↦ n.tnCallback == k) =
      (s.tmQueue.erase n).countP (fun n ↦ n.tnCallback == k) +
        if k = n.tnCallback then 1 else 0 := by
    rw [(List.perm_cons_erase hmem).countP_eq, List.countP_cons]
    simp only [beq_iff_eq, eq_comm (a := k)]
  have hview : { s with tick := .isKeyExist n late, tmQueue := s.tmQueue.erase n }.view =
      s.view.moved n.tnCallback .queued .popped := by
    refine view_eq_moved rfl rfl rfl rfl fun k stage ↦ ?_
    unfold TimerView.one
    cases stage with
    | queued =>
      change (s.tmQueue.erase n).countP _ + _ + _ = s.tmQueue.countP _ + _ + _
      rw [hcount k]
      simp only [and_true, reduceCtorEq, and_false, if_false]
      omega
    | popped =>
      change [n.tnCallback].count k + _ = s.tick.lookedUp.count k + _
      rw [at_, count_singleton_eq_one]
      simp [TickPc.lookedUp]
    | checked =>
      change [].count k + _ = s.tick.found.count k + _
      rw [at_]
      simp [TickPc.found]
    | _ => simp only [reduceCtorEq, and_false, if_false]; rfl
  rw [hview]
  refine .expired n.tnCallback ?_
  change 0 < s.tmQueue.countP _ + _
  rw [hcount, if_pos rfl]
  omega

/-- The tick thread drops a node. -/
theorem Used.move_drop (h : s.Used) {n : TimerNode} {late : Bool}
    (at_ : s.tick = .isKeyExist n late) (key : s.tmIdStateMap.isKeyExist n.tnId = false) :
    TimerView.Move s.view
      { s.setTick .head none with dropped := s.dropped ++ [n.tnCallback] }.view := by
  have hview : { s.setTick .head none with dropped := s.dropped ++ [n.tnCallback] }.view =
      s.view.moved n.tnCallback .popped .dropped := by
    refine view_eq_moved rfl rfl rfl rfl fun k stage ↦ ?_
    unfold TimerView.one
    cases stage with
    | popped =>
      change [].count k + _ = s.tick.lookedUp.count k + _
      rw [at_]
      change _ = [n.tnCallback].count k + _
      rw [count_singleton_eq_one]
      simp
    | checked =>
      change [].count k + _ = s.tick.found.count k + _
      rw [at_]
      simp [TickPc.found]
    | dropped =>
      change (s.dropped ++ [n.tnCallback]).count k + _ = s.dropped.count k + _
      rw [List.count_append, count_singleton_eq_one]
      simp
    | _ => simp only [reduceCtorEq, and_false, if_false]; rfl
  rw [hview]
  obtain ⟨hid, hmem⟩ := h.got at_
  refine .dropped n.tnCallback n.tnId ?_ hid ?_
  · change 0 < s.tick.lookedUp.count n.tnCallback
    rw [at_]
    exact List.count_pos_iff.mpr (List.mem_singleton.mpr rfl)
  · change n.tnId ∉ s.keys
    rw [h.mem_keys (Or.inr hmem), key]
    exact Bool.false_ne_true

/-- The tick thread posts a callback. -/
theorem move_postTask {callback : Nat} {late : Bool} {pool : Threadpool Nat}
    (at_ : s.tick = .emplace callback late) (emplaced : s.tmThreadPool.emplace callback = some pool)
    (calls : t.calls = s.calls) (cancels : t.cancels = s.cancels) (count : t.tmCount = s.tmCount)
    (map : t.tmIdStateMap = s.tmIdStateMap) (queue : t.tmQueue = s.tmQueue)
    (tick : t.tick = .notify) (tmThreadPool : t.tmThreadPool = pool)
    (dropped : t.dropped = s.dropped) : TimerView.Move s.view t.view := by
  obtain ⟨hpool, hfinished⟩ := Threadpool.executed_emplace emplaced
  have hview : t.view = s.view.moved callback .checked .posted := by
    refine view_eq_moved calls cancels count map fun k stage ↦ ?_
    unfold TimerView.one
    cases stage with
    | queued => simp only [placed, calls, queue, reduceCtorEq, and_false, if_false]
    | popped => simp [placed, tick, at_, TickPc.lookedUp]
    | checked =>
      unfold placed
      rw [tick, at_]
      change [].count k + _ = [callback].count k + _
      rw [count_singleton_eq_one]
      simp
    | posted =>
      unfold placed
      rw [tmThreadPool, Threadpool.toBegin_emplace emplaced, count_singleton_eq_one]
      simp
    | running u => simp [placed, Threadpool.inside, tmThreadPool, hpool]
    | done => simp [placed, tmThreadPool, hfinished]
    | dropped => simp [placed, dropped]
  rw [hview]
  refine .posted callback ?_
  change 0 < s.tick.found.count callback
  rw [at_]
  exact List.count_pos_iff.mpr (List.mem_singleton.mpr rfl)

/-- A step of the pool leaves the copies of the callbacks, or moves one of them on. -/
theorem Used.move_pool (h : s.Used) {pool : Threadpool Nat} (moves : s.tmThreadPool.Moves pool) :
    TimerView.Move s.view { s with tmThreadPool := pool }.view := by
  cases moves with
  | stay toBegin inside finished =>
    apply move_of_eq
    refine view_congr (fun _ ↦ rfl) (fun _ ↦ rfl) rfl rfl fun k stage ↦ ?_
    cases stage with
    | posted => exact toBegin k
    | running u => exact inside k
    | done => exact congrArg (List.count k) finished
    | _ => rfl
  | begin w k at_ toBegin inside finished =>
    have hview : { s with tmThreadPool := pool }.view = s.view.moved k .posted (.running ()) := by
      refine view_eq_moved rfl rfl rfl rfl fun k' stage ↦ ?_
      unfold TimerView.one
      cases stage with
      | posted =>
        have hcount := toBegin k'
        rw [count_singleton_eq_one] at hcount
        simpa [placed] using hcount
      | running u =>
        have hcount := inside k'
        rw [count_singleton_eq_one] at hcount
        simpa [placed] using hcount
      | done => simp [placed, finished]
      | _ => simp only [reduceCtorEq, and_false, if_false]; rfl
    rw [hview]
    refine .begun k ?_ fun l nodup executed ↦ ?_
    · have hcount := toBegin k
      rw [count_singleton_eq_one, if_pos rfl] at hcount
      change 0 < s.tmThreadPool.toBegin k
      omega
    · have hlt := Threadpool.length_lt_of_call at_ nodup executed
      rw [h.workers] at hlt
      exact hlt
  | finish k toBegin inside finished =>
    have hview : { s with tmThreadPool := pool }.view = s.view.moved k (.running ()) .done := by
      refine view_eq_moved rfl rfl rfl rfl fun k' stage ↦ ?_
      unfold TimerView.one
      cases stage with
      | posted => simp [placed, toBegin k']
      | running u =>
        have hcount := inside k'
        rw [count_singleton_eq_one] at hcount
        simpa [placed] using hcount
      | done =>
        simp only [placed, finished, List.count_append, count_singleton_eq_one]
        simp
      | _ => simp only [reduceCtorEq, and_false, if_false]; rfl
    rw [hview]
    refine .finished k ?_
    have hcount := inside k
    rw [count_singleton_eq_one, if_pos rfl] at hcount
    change 0 < s.tmThreadPool.inside k
    omega

/-- Every step of a timer that a server uses leaves its view, or is a move of it. -/
theorem Used.move (h : s.Used) (hstep : Step s a t) : TimerView.Move s.view t.view := by
  cases hstep with
  | run k call at_ =>
    exact move_of_eq (view_setCall (by rw [at_]; rfl) (by rw [at_]; rfl) (by rw [at_]; rfl))
  | fetchAdd k now call at_ =>
    rw [view_fetchAdd at_]
    exact .made k (by change (s.calls k).id? = none; rw [at_]; rfl)
  | emplace k now call id at_ =>
    exact move_of_eq (view_emplace at_ rfl rfl rfl rfl rfl rfl rfl rfl)
  | lockCall k now call n at_ free =>
    have hview : (s.setCall k (.push call n)).view = s.view :=
      view_setCall (by rw [at_]; rfl) (by rw [at_]; rfl) (by rw [at_]; rfl)
    exact move_of_eq hview
  | push k now call n at_ =>
    exact move_of_eq (h.view_push at_ rfl rfl rfl rfl rfl rfl rfl rfl)
  | notifyCall k now call n at_ =>
    have hview : (s.setCall k (.unlock call n)).view = s.view :=
      view_setCall (by rw [at_]; rfl) (by rw [at_]; rfl) (by rw [at_]; rfl)
    rw [← hview]
    exact move_of_eq (view_notified rfl rfl rfl rfl rfl rfl rfl rfl)
  | unlockCall k now call n at_ =>
    have hview : (s.setCall k (.returned call n)).view = s.view :=
      view_setCall (by rw [at_]; rfl) (by rw [at_]; rfl) (by rw [at_]; rfl)
    exact move_of_eq hview
  | cancel c id at_ => exact move_of_eq (view_setCancel (by rw [at_]; rfl))
  | cancelTest c id known at_ =>
    by_cases hkey : s.tmIdStateMap.isKeyExist id = true
    · rw [if_pos hkey]
      exact move_of_eq (view_setCancel (by rw [at_]; rfl))
    · rw [if_neg hkey, h.view_missing at_ (Bool.eq_false_of_not_eq_true hkey)]
      exact .cancelled c id (by change (s.cancels c).over? = none; rw [at_]; rfl)
  | cancelErase c id known at_ =>
    rw [h.view_erase at_]
    exact .cancelled c id (by change (s.cancels c).over? = none; rw [at_]; rfl)
  | cancelRet c id known at_ =>
    have hview : (s.setCancel c (.returned id known)).view = s.view :=
      view_setCancel (by rw [at_]; rfl)
    exact move_of_eq hview
  | tickMove a pc holder move =>
    rcases move.view with ⟨hlookedUp, hfound⟩ | ⟨n, late, at_, rfl, key⟩
    · exact move_of_eq (view_congr (fun _ ↦ rfl) (fun _ ↦ rfl) rfl rfl fun _ _ ↦
        placed_tick rfl rfl hlookedUp hfound rfl rfl)
    · exact h.move_found at_ key
  | pop now n at_ => exact h.move_pop at_
  | drop now n late at_ key => exact h.move_drop at_ key
  | rearm now n late at_ =>
    rw [h.rearmed at_ now]
    exact move_of_eq (view_congr (fun _ ↦ rfl) (fun _ ↦ rfl) rfl rfl fun _ _ ↦
      placed_tick rfl rfl (by rw [at_]; rfl) (by rw [at_]; rfl) rfl rfl)
  | postTask now callback late pool at_ emplaced =>
    exact move_postTask at_ emplaced rfl rfl rfl rfl rfl rfl rfl rfl
  | notify who pool at_ notified =>
    have hview : { s with tick := .head, tmThreadPool := pool }.view =
        { s with tmThreadPool := pool }.view :=
      view_congr (fun _ ↦ rfl) (fun _ ↦ rfl) rfl rfl fun _ _ ↦
        placed_tick rfl rfl (by rw [at_]; rfl) (by rw [at_]; rfl) rfl rfl
    rw [hview]
    exact h.move_pool (Threadpool.moves_of_notifyOne notified)
  | worker w pool moved => exact h.move_pool (Threadpool.moves_of_workerStep moved)
  | destructor a running pc => exact .silent
  | notifyTick a pc => exact move_of_eq (view_notified rfl rfl rfl rfl rfl rfl rfl rfl)
  | destroyPool a pool pc pc' pc'' moved =>
    exact h.move_pool (Threadpool.moves_of_destructorStep moved)

end TimerSystem

/-! ### The timer in one piece -/

/-- After the operations `ops`, the timer in one piece, `a`, looks like `v`. Every call that has got
its id has a node with this id, and the node is at the stage where the callback is; the calls that
have been made and cancelled are in `ops`, each once. -/
structure Shows (v : TimerView) (ops : List (TimerOp Nat)) (a : TimerState Nat Unit) : Prop where
  numbered : a.Numbered
  count : a.tmCount = v.count
  keys : ∀ id, a.tmIdStateMap id = true ↔ id ∈ v.keys
  node : ∀ k id, v.ids k = some id → ∃ j tn, a.nodes j = some tn ∧ tn.job = k
  call : ∀ j tn, a.nodes j = some tn → v.ids tn.job = some tn.tnId
  single : ∀ j j' tn tn', a.nodes j = some tn → a.nodes j' = some tn' → tn.job = tn'.job → j = j'
  placed : ∀ j tn, a.nodes j = some tn →
    ∀ stage, v.placed tn.job stage = if stage = tn.stage then 1 else 0
  unplaced : ∀ k, v.ids k = none → ∀ stage, v.placed k stage = 0
  runs : ∀ k, ops.count (.runAfter k) = if (v.ids k).isSome then 1 else 0
  cancels : ∀ c id, ops.count (.cancel c id) = if v.overs c = some id then 1 else 0

namespace Shows

variable {v v' : TimerView} {ops : List (TimerOp Nat)} {a : TimerState Nat Unit}

/-- Before the first step. -/
theorem init : Shows TimerSystem.init.view [] .init where
  numbered := TimerState.numbered_init
  count := rfl
  keys id := by
    constructor
    · intro h
      cases h
    · rintro (h | ⟨k, h⟩)
      · cases h
      · cases h
  node _ _ h := nomatch h
  call _ _ h := nomatch h
  single _ _ _ _ h := nomatch h
  placed _ _ h := nomatch h
  unplaced _ _ stage := by cases stage <;> rfl
  runs _ := rfl
  cancels _ _ := rfl

/-- `run_after`. -/
theorem made (h : Shows v ops a) {k : Nat} (new : v.ids k = none) :
    Shows (v.made k) (ops ++ [.runAfter k]) (a.runAfter k) := by
  have hother {j : Nat} {tn : Net.TimerNode Nat Unit} (node : a.nodes j = some tn) :
      tn.job ≠ k := by
    rintro rfl
    rw [h.call j tn node] at new
    cases new
  have hcases {j : Nat} {tn : Net.TimerNode Nat Unit} (node : (a.runAfter k).nodes j = some tn) :
      j = a.tmCount ∧ tn = ⟨counter32 v.count, k, .queued⟩ ∨ a.nodes j = some tn := by
    rw [TimerState.nodes_runAfter] at node
    split at node
    · next hj =>
      cases node
      exact Or.inl ⟨hj, by rw [TimerState.nextId, h.count]⟩
    · exact Or.inr node
  refine ⟨h.numbered.runAfter k, congrArg (· + 1) h.count, ?_, ?_, ?_, ?_, ?_, ?_, ?_, ?_⟩
  · intro id
    rw [TimerState.tmIdStateMap_runAfter, TimerState.nextId, h.count]
    change _ ↔ id = counter32 v.count ∨ id ∈ v.keys
    by_cases hid : id = counter32 v.count
    · simp [hid]
    · simp [hid, h.keys id]
  · intro k' id hid
    by_cases hk : k' = k
    · refine ⟨a.tmCount, ⟨a.nextId, k, .queued⟩, ?_, hk.symm⟩
      rw [TimerState.nodes_runAfter, if_pos rfl]
    · have hold : v.ids k' = some id := by
        rw [← hid]
        exact (Function.update_of_ne hk _ _).symm
      obtain ⟨j, tn, hj, hjob⟩ := h.node k' id hold
      refine ⟨j, tn, ?_, hjob⟩
      have hlt := (h.numbered j tn hj).1
      rw [TimerState.nodes_runAfter, if_neg (by omega), hj]
  · intro j tn node
    change Function.update v.ids k (some (counter32 v.count)) tn.job = some tn.tnId
    rcases hcases node with ⟨-, rfl⟩ | hold
    · exact Function.update_self _ _ _
    · rw [Function.update_of_ne (hother hold)]
      exact h.call j tn hold
  · intro j j' tn tn' node node' hjob
    rcases hcases node with ⟨hj, rfl⟩ | hold
    · rcases hcases node' with ⟨hj', -⟩ | hold'
      · rw [hj, hj']
      · exact absurd hjob.symm (hother hold')
    · rcases hcases node' with ⟨-, rfl⟩ | hold'
      · exact absurd hjob (hother hold)
      · exact h.single j j' tn tn' hold hold' hjob
  · intro j tn node stage
    change v.placed tn.job stage + TimerView.one k .queued tn.job stage = _
    unfold TimerView.one
    rcases hcases node with ⟨-, rfl⟩ | hold
    · simp [h.unplaced k new]
    · rw [if_neg fun hk ↦ hother hold hk.1]
      exact h.placed j tn hold stage
  · intro k' hk' stage
    have hne : k' ≠ k := by
      rintro rfl
      rw [show (v.made k').ids k' = some _ from Function.update_self _ _ _] at hk'
      cases hk'
    change v.placed k' stage + TimerView.one k .queued k' stage = 0
    unfold TimerView.one
    rw [if_neg fun hk ↦ hne hk.1, h.unplaced k' (by
      rw [← hk']
      exact (Function.update_of_ne hne _ _).symm)]
  · intro k'
    rw [List.count_append, h.runs, List.count_singleton]
    change _ = if (Function.update v.ids k (some (counter32 v.count)) k').isSome then 1 else 0
    by_cases hk : k' = k
    · simp [hk, new]
    · simp [hk, Ne.symm hk]
  · intro c id
    rw [List.count_append, h.cancels, List.count_singleton]
    exact Nat.add_zero _

/-- `cancel`. -/
theorem cancelled (h : Shows v ops a) {c : Nat} {id : Int} (new : v.overs c = none) :
    Shows (v.cancelled c id) (ops ++ [.cancel c id]) (a.cancel id) := by
  refine ⟨h.numbered, h.count, ?_, h.node, h.call, h.single, h.placed, h.unplaced, ?_, ?_⟩
  · intro id'
    rw [TimerState.tmIdStateMap_cancel]
    change _ ↔ id' ∈ v.keys ∧ id' ≠ id
    by_cases hid : id' = id
    · simp [hid]
    · simp [hid, h.keys id']
  · intro k
    rw [List.count_append, h.runs, List.count_singleton]
    exact Nat.add_zero _
  · intro c' id'
    rw [List.count_append, h.cancels, List.count_singleton]
    change _ = if Function.update v.overs c (some id) c' = some id' then 1 else 0
    by_cases hc : c' = c
    · simp [hc, new]
    · simp [hc, Ne.symm hc]

/-- A node has the id that its call has got. -/
theorem tnId_eq (h : Shows v ops a) {j : Nat} {tn : Net.TimerNode Nat Unit} {id : Int}
    (node : a.nodes j = some tn) (got : v.ids tn.job = some id) : tn.tnId = id :=
  Option.some.inj ((h.call j tn node).symm.trans got)

/-- A callback that is somewhere has a node that is there. -/
theorem exists_node (h : Shows v ops a) {k : Nat} {stage : TimerStage Unit}
    (at_ : 0 < v.placed k stage) :
    ∃ j tn, a.nodes j = some tn ∧ tn.job = k ∧ tn.stage = stage := by
  cases hid : v.ids k with
  | none =>
    rw [h.unplaced k hid] at at_
    exact absurd at_ (Nat.lt_irrefl 0)
  | some id =>
    obtain ⟨j, tn, node, rfl⟩ := h.node k id hid
    refine ⟨j, tn, node, rfl, ?_⟩
    rw [h.placed j tn node] at at_
    by_contra hne
    rw [if_neg (Ne.symm hne)] at at_
    exact absurd at_ (Nat.lt_irrefl 0)

/-- A node moves on. -/
theorem moved (h : Shows v ops a) {j : Nat} {tn : Net.TimerNode Nat Unit}
    {before after : TimerStage Unit} {op : TimerOp Nat} (node : a.nodes j = some tn)
    (at_ : tn.stage = before) (noRun : ∀ k, [op].count (.runAfter k) = 0)
    (noCancel : ∀ c id, [op].count (.cancel c id) = 0) :
    Shows (v.moved tn.job before after) (ops ++ [op]) (a.setStage j after) := by
  refine ⟨h.numbered.setStage j after, h.count, h.keys, ?_, ?_, ?_, ?_, ?_, ?_, ?_⟩
  · intro k id hid
    obtain ⟨j', tn', node', hjob⟩ := h.node k id hid
    by_cases hj : j' = j
    · refine ⟨j', { tn' with stage := after }, ?_, hjob⟩
      rw [TimerState.nodes_setStage, if_pos hj, ← hj, node', Option.map_some]
    · exact ⟨j', tn', by rw [TimerState.nodes_setStage, if_neg hj, node'], hjob⟩
  · intro j' tn' node'
    obtain ⟨tn₀, node₀, hid, hjob, -⟩ := TimerState.node_of_setStage node'
    rw [hid, hjob]
    exact h.call j' tn₀ node₀
  · intro j₁ j₂ tn₁ tn₂ node₁ node₂ hjob
    obtain ⟨tn₁', node₁', -, hjob₁, -⟩ := TimerState.node_of_setStage node₁
    obtain ⟨tn₂', node₂', -, hjob₂, -⟩ := TimerState.node_of_setStage node₂
    exact h.single j₁ j₂ tn₁' tn₂' node₁' node₂' (by rw [← hjob₁, hjob, hjob₂])
  · intro j' tn' node' stage
    obtain ⟨tn₀, node₀, -, hjob, hstage⟩ := TimerState.node_of_setStage node'
    have hplaced := h.placed j' tn₀ node₀ stage
    change v.placed tn'.job stage + TimerView.one tn.job after tn'.job stage -
      TimerView.one tn.job before tn'.job stage = _
    unfold TimerView.one
    rw [hjob, hplaced, hstage]
    by_cases hj : j' = j
    · rw [hj, node] at node₀
      cases node₀
      simp only [hj, at_, true_and, if_true]
      omega
    · have hne : tn₀.job ≠ tn.job := fun he ↦ hj (h.single j' j tn₀ tn node₀ node he)
      simp [hj, hne]
  · intro k hk stage
    have hne : k ≠ tn.job := by
      rintro rfl
      have hsome := h.call j tn node
      rw [show v.ids tn.job = none from hk] at hsome
      cases hsome
    change v.placed k stage + TimerView.one tn.job after k stage -
      TimerView.one tn.job before k stage = 0
    unfold TimerView.one
    simp [hne, h.unplaced k hk]
  · intro k
    rw [List.count_append, noRun, h.runs]
    rfl
  · intro c id
    rw [List.count_append, noCancel, h.cancels]
    rfl

/-- The callbacks that are being executed are different ones. -/
theorem busyWorkers_lt (h : Shows v ops a) {bound : Nat}
    (free : ∀ l : List Nat, l.Nodup → (∀ k ∈ l, 0 < v.placed k (.running ())) →
      l.length < bound) : a.busyWorkers < bound := by
  let executed (j : Nat) : Option Nat :=
    (a.nodes j).bind fun tn ↦ if tn.stage = .running () then some tn.job else none
  have hexecuted {j k : Nat} (hj : executed j = some k) :
      ∃ tn, a.nodes j = some tn ∧ tn.stage = .running () ∧ tn.job = k := by
    obtain ⟨tn, node, htn⟩ := Option.bind_eq_some_iff.mp hj
    rw [Option.ite_none_right_eq_some] at htn
    exact ⟨tn, node, htn.1, Option.some.inj htn.2⟩
  have hlength : a.busyWorkers = ((List.range a.tmCount).filterMap executed).length := by
    rw [List.length_filterMap_eq_countP]
    unfold TimerState.busyWorkers
    congr 1
    funext j
    cases hnode : a.nodes j with
    | none => simp [executed, hnode]
    | some tn =>
      obtain ⟨id, job, stage⟩ := tn
      cases stage <;> simp [executed, hnode]
  rw [hlength]
  apply free
  · refine List.nodup_range.filterMap fun j j' k hj hj' ↦ ?_
    obtain ⟨tn, node, -, hjob⟩ := hexecuted hj
    obtain ⟨tn', node', -, hjob'⟩ := hexecuted hj'
    exact h.single j j' tn tn' node node' (hjob.trans hjob'.symm)
  · intro k hk
    obtain ⟨j, -, hj⟩ := List.mem_filterMap.mp hk
    obtain ⟨tn, node, hstage, rfl⟩ := hexecuted hj
    rw [h.placed j tn node, if_pos hstage.symm]
    exact Nat.one_pos

/-- A move is nothing, one operation or one move of the timer in one piece. -/
theorem move (h : Shows v ops a) (hmove : v.Move v') :
    ∃ ops' b, run TimerState.step a ops' = some b ∧ Shows v' (ops ++ ops') b := by
  -- a node that moves on by one step
  have advance {k : Nat} {before after : TimerStage Unit} (op : Nat → TimerOp Nat)
      (at_ : 0 < v.placed k before) (noRun : ∀ j k, [op j].count (.runAfter k) = 0)
      (noCancel : ∀ j c id, [op j].count (.cancel c id) = 0)
      (step : ∀ j tn, a.nodes j = some tn → tn.job = k →
        a.step (op j) = a.advance j before after) :
      ∃ ops' b, run TimerState.step a ops' = some b ∧
        Shows (v.moved k before after) (ops ++ ops') b := by
    obtain ⟨j, tn, node, rfl, hstage⟩ := h.exists_node at_
    refine ⟨[op j], a.setStage j after, ?_, h.moved node hstage (noRun j) (noCancel j)⟩
    have hstep := (step j tn node rfl).trans (TimerState.advance_eq_some node hstage after)
    exact Option.bind_eq_some_iff.mpr ⟨_, hstep, rfl⟩
  cases hmove with
  | silent => exact ⟨[], a, rfl, by rw [List.append_nil]; exact h⟩
  | made k new => exact ⟨[.runAfter k], a.runAfter k, rfl, h.made new⟩
  | cancelled c id new => exact ⟨[.cancel c id], a.cancel id, rfl, h.cancelled new⟩
  | expired k at_ =>
    exact advance .expire at_ (fun _ _ ↦ rfl) (fun _ _ _ ↦ rfl) fun _ _ _ _ ↦ rfl
  | passed k id at_ got key =>
    refine advance .check at_ (fun _ _ ↦ rfl) (fun _ _ _ ↦ rfl) fun j tn node hjob ↦ ?_
    have hkey : a.tmIdStateMap tn.tnId = true := by
      rw [h.tnId_eq node (hjob ▸ got)]
      exact (h.keys id).mpr key
    simp only [TimerState.step, node, hkey, if_true]
  | dropped k id at_ got key =>
    refine advance .check at_ (fun _ _ ↦ rfl) (fun _ _ _ ↦ rfl) fun j tn node hjob ↦ ?_
    have hkey : a.tmIdStateMap tn.tnId = false := by
      rw [h.tnId_eq node (hjob ▸ got)]
      exact Bool.eq_false_of_not_eq_true fun htrue ↦ key ((h.keys id).mp htrue)
    simp only [TimerState.step, node, hkey, Bool.false_eq_true, if_false]
  | posted k at_ =>
    exact advance .post at_ (fun _ _ ↦ rfl) (fun _ _ _ ↦ rfl) fun _ _ _ _ ↦ rfl
  | begun k at_ free =>
    refine advance .begin at_ (fun _ _ ↦ rfl) (fun _ _ _ ↦ rfl) fun j tn node hjob ↦ ?_
    exact if_pos (h.busyWorkers_lt free)
  | finished k at_ =>
    exact advance .finish at_ (fun _ _ ↦ rfl) (fun _ _ _ ↦ rfl) fun _ _ _ _ ↦ rfl

end Shows

/-- A timer that is used as a server uses it is linearizable. For every run there is a run of the
timer in one piece that looks the same: each call that has got its id, and each call of `cancel`
that has dealt with the table, is in it once, the calls return the same ids, and the callbacks are
at the same stages. What has been done when a state is reached stays done first when the run goes
on, so that a call that has returned comes before every call that is made later. -/
theorem timer_linearizable {s t : TimerSystem}
    (h : ReachBy TimerSystem.step TimerSystem.ServerUse .init s)
    (later : ReachBy TimerSystem.step TimerSystem.ServerUse s t) :
    ∃ ops a ops' b, run TimerState.step .init ops = some a ∧ Shows s.view ops a ∧
      run TimerState.step a ops' = some b ∧ Shows t.view (ops ++ ops') b := by
  have hsim (s : TimerSystem) (c : TimerAction) (s' : TimerSystem) (ops : List (TimerOp Nat))
      (a : TimerState Nat Unit) (hok : s.ServerUse c) (hstep : s.step c = some s')
      (hs : s.Used ∧ Shows s.view ops a) :
      ∃ ops' b, run TimerState.step a ops' = some b ∧
        s'.Used ∧ Shows s'.view (ops ++ ops') b := by
    obtain ⟨hused, hshows⟩ := hs
    obtain ⟨ops', b, hrun, hshows'⟩ := hshows.move (hused.move (TimerSystem.step_inversion hstep))
    exact ⟨ops', b, hrun, hused.step hok hstep, hshows'⟩
  obtain ⟨ops, a, hrun, hs⟩ := h.extend hsim ⟨TimerSystem.used_init, Shows.init⟩
  obtain ⟨ops', b, hrun', ht⟩ := later.extend hsim hs
  exact ⟨ops, a, ops', b, hrun, hs.2, hrun', ht.2⟩

/-- Two timers are made. -/
def twoTimers : List TimerAction :=
  .flatten [[.start], runCall 0 (.runAfter 0 false) 0, runCall 1 (.runAfter 0 false) 0]

/-- The second is cancelled while the first expires and a worker begins with it. -/
def expiryInsideCancel : List TimerAction :=
  .flatten [[.cancel 0 1, .cancelStep 0], expiry ⟨0, 0, 0, 0, false, false, 0⟩ 0,
    [.cancelStep 0, .cancelStep 0], .replicate 7 (.worker 0)]

/-- The cancellation can be told after both calls. -/
theorem cancel_in_one_piece :
    ∃ s t ops a ops' b, run TimerSystem.step .init twoTimers = some s ∧
      run TimerSystem.step s expiryInsideCancel = some t ∧
      run TimerState.step .init ops = some a ∧ Shows s.view ops a ∧
        run TimerState.step a ops' = some b ∧ Shows t.view (ops ++ ops') b := by
  have hrun : (run TimerSystem.step .init (twoTimers ++ expiryInsideCancel)).isSome := by
    decide +kernel
  obtain ⟨t, ht⟩ := Option.isSome_iff_exists.mp hrun
  rw [run_append] at ht
  obtain ⟨s, hs, hst⟩ := Option.bind_eq_some_iff.mp ht
  have hok : Admits TimerSystem.step TimerSystem.ServerUse .init twoTimers := by decide +kernel
  have hlater : ∀ s ∈ run TimerSystem.step .init twoTimers,
      Admits TimerSystem.step TimerSystem.ServerUse s expiryInsideCancel := by decide +kernel
  obtain ⟨ops, a, ops', b, hrun, hshows, hrun', hshows'⟩ :=
    timer_linearizable (reachBy_of_run hs hok) (reachBy_of_run hst (hlater s hs))
  exact ⟨s, t, ops, a, ops', b, hs, hst, hrun, hshows, hrun', hshows'⟩

end ConcurrentServer.Timer
