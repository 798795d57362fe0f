import ConcurrentServer.Base.Run
import Mathlib.Data.Finset.Card
import Mathlib.Data.Finset.Range
import Mathlib.Logic.Function.Basic

/-!
# Starting the connection loops

`src/net/tcp_server.cpp:34–58`, `src/threadpool/threadpool.h:38–98`. `TcpServer::start`
posts one task for each loop it constructs. Every task captures the loop variable `ev` by
reference, so a worker reads which loop to run from a slot that the next iteration assigns
again. The variable lives in the loop: when the last iteration is over the slot is dead, and a
worker that reads it then runs nobody's loop. Between two iterations the slot keeps its value.
`ts_started` reads false: this is the first start of a fresh server. A loop that runs does not
return, since nothing here calls `quit`.
-/

namespace ConcurrentServer.Net
open ConcurrentServer.Base

/-- `THREADPOOL_MAX_NUM`. -/
def threadpoolMaxNum : Nat := 64

/-- `Threadpool::add_thread`: the number of threads after adding up to `size` to `tpPool`;
`src/threadpool/threadpool.h:73–98`. -/
def addThread (tpPool : Nat) : Nat → Nat
  | 0 => tpPool
  | size + 1 => if tpPool < threadpoolMaxNum then addThread (tpPool + 1) size else tpPool

/-- The workers of a pool constructed for `n` threads. -/
def poolSize (n : Nat) : Nat := addThread 0 n

/-- Where the starting thread is inside the loop of `start`. -/
inductive StarterPc
  /-- Before the test `i < ts_thread_num` and the construction of a loop. -/
  | newLoop
  /-- Before `EventLoop* ev = ts_conn_loops[i]`. -/
  | bindEv
  /-- Before `post_task`. -/
  | post
  /-- Past the loop. -/
  | finished
  deriving DecidableEq, Repr

/-- Where a pool worker is. Tasks are named by the iteration that posted them, event loops
by their position in `ts_conn_loops`. -/
inductive WorkerPc
  /-- Waiting for a task. -/
  | idle
  /-- A task has been taken off the queue; `ev` has not been read. -/
  | taken (task : Nat)
  /-- Inside `loop()` of the event loop that the task read from `ev`. -/
  | loops (task loop : Nat)
  /-- The task has read `ev` after its life; what it calls `loop()` on is undefined. -/
  | dangles (task : Nat)
  deriving DecidableEq, Repr

/-- The task a worker is busy with. -/
def WorkerPc.task : WorkerPc → Option Nat
  | .idle => none
  | .taken x => some x
  | .loops x _ => some x
  | .dangles x => some x

/-- The starting thread, the slot of its `ev` (`none` before it is bound and after its life), the
pool's queue and the workers. -/
structure StartState where
  i : Nat
  pc : StarterPc
  tsConnLoops : List Nat
  ev : Option Nat
  tpTasks : List Nat
  workers : Nat → WorkerPc

/-- The state in which the loop of `start` begins. -/
def StartState.init : StartState := ⟨0, .newLoop, [], none, [], fun _ ↦ .idle⟩

/-- What can happen next. -/
inductive StartAction
  /-- The starting thread executes its next statement. -/
  | start
  /-- Worker `w` takes the front task off the queue. -/
  | take (w : Nat)
  /-- Worker `w` reads `ev` and calls `loop()`. -/
  | enter (w : Nat)
  deriving DecidableEq, Repr

/-- One statement of the starting thread; `src/net/tcp_server.cpp:46–52`. -/
def StartState.starterStep (n : Nat) (s : StartState) : Option StartState :=
  match s.pc with
  | .newLoop =>
    if s.i < n then
      some { s with tsConnLoops := s.tsConnLoops ++ [s.tsConnLoops.length], pc := .bindEv }
    else some { s with ev := none, pc := .finished }
  | .bindEv => some { s with ev := s.tsConnLoops[s.i]?, pc := .post }
  | .post => some { s with tpTasks := s.tpTasks ++ [s.i], i := s.i + 1, pc := .newLoop }
  | .finished => none

/-- The step function for `ts_thread_num = n`. -/
def StartState.step (n : Nat) (s : StartState) : StartAction → Option StartState
  | .start => s.starterStep n
  | .take w =>
    match s.workers w, s.tpTasks with
    | .idle, x :: rest =>
      if w < poolSize n then
        some { s with tpTasks := rest, workers := Function.update s.workers w (.taken x) }
      else none
    | _, _ => none
  | .enter w =>
    match s.workers w with
    | .taken x =>
      match s.ev with
      | some l => some { s with workers := Function.update s.workers w (.loops x l) }
      | none => some { s with workers := Function.update s.workers w (.dangles x) }
    | _ => none

/-! ### What the start should achieve -/

/-- A task that has been posted and has not read `ev`. -/
def StartState.Unread (s : StartState) (x : Nat) : Prop :=
  x ∈ s.tpTasks ∨ ∃ w, s.workers w = .taken x

/-- The start is over: every task has been posted and has read `ev`. -/
def StartState.Settled (s : StartState) : Prop :=
  s.pc = .finished ∧ ∀ x, ¬ s.Unread x

/-- Worker `w` runs the event loop `l`. -/
def StartState.Runs (s : StartState) (w l : Nat) : Prop := ∃ x, s.workers w = .loops x l

/-- No event loop is run by two workers; when the start is over every event loop is run by a
worker; and until it is over some thread can go on. -/
structure StartState.LoopsApart (n : Nat) (s : StartState) : Prop where
  apart : ∀ w w' l, s.Runs w l → s.Runs w' l → w = w'
  complete : s.Settled → ∀ l < n, ∃ w < poolSize n, s.Runs w l
  live : ¬ s.Settled → ∃ a t, s.step n a = some t

/-- The next statement of the starting thread assigns `ev`, or ends its life with the loop. -/
def StartState.LosesEv (n : Nat) (s : StartState) : Prop :=
  s.pc = .bindEv ∨ (s.pc = .newLoop ∧ n ≤ s.i)

/-- The condition on a step: `ev` is assigned, and its life ends, only when every posted task has
read it. -/
def StartState.ReadInTime (n : Nat) (s : StartState) (a : StartAction) : Prop :=
  a = .start → s.LosesEv n → ∀ x, ¬ s.Unread x

/-- A pool of at most 64 threads has the size it was asked for. -/
theorem poolSize_eq {n : Nat} (h : n ≤ threadpoolMaxNum) : poolSize n = n := by
  have all (tpPool size : Nat) (hle : tpPool + size ≤ threadpoolMaxNum) :
      addThread tpPool size = tpPool + size := by
    induction size generalizing tpPool with
    | zero => rfl
    | succ size ih =>
      rw [addThread, if_pos (by omega), ih (tpPool + 1) (by omega)]
      omega
  rw [poolSize, all 0 n (by omega), Nat.zero_add]

/-! ### The tasks and their places -/

/-- What every schedule keeps: the tasks posted so far are exactly those of the iterations
completed so far, and each is in the queue or with one worker. -/
structure StartState.Placed (n : Nat) (s : StartState) : Prop where
  bound : s.i ≤ n
  below : s.pc = .bindEv ∨ s.pc = .post → s.i < n
  stop : s.pc = .finished → s.i = n
  loops : s.tsConnLoops = List.range (s.i + if s.pc = .bindEv ∨ s.pc = .post then 1 else 0)
  queue : s.tpTasks.Nodup
  posted : ∀ x, x ∈ s.tpTasks ∨ (∃ w, (s.workers w).task = some x) ↔ x < s.i
  queued : ∀ x ∈ s.tpTasks, ∀ w, (s.workers w).task ≠ some x
  single : ∀ w w' x, (s.workers w).task = some x → (s.workers w').task = some x → w = w'
  inPool : ∀ w, s.workers w ≠ .idle → w < poolSize n

namespace StartState

variable {n : Nat} {s s' : StartState}

/-- Before the first iteration nothing is posted. -/
theorem placed_init : StartState.init.Placed n := by
  constructor <;> simp [StartState.init, WorkerPc.task]

/-- The task of a worker after one worker has moved on. -/
theorem task_update (w w' : Nat) (p : WorkerPc) :
    (Function.update s.workers w p w').task =
      if w' = w then p.task else (s.workers w').task := by
  by_cases h : w' = w
  · subst h; simp
  · simp [h]

/-- A statement of the starting thread keeps every task in its place. -/
theorem Placed.starterStep (h : s.Placed n) (hstep : s.starterStep n = some s') :
    s'.Placed n := by
  unfold StartState.starterStep at hstep
  split at hstep
  · next hpc =>
    have hloops := h.loops
    simp only [hpc, reduceCtorEq, or_self, ite_false, Nat.add_zero] at hloops
    split at hstep
    · next hi =>
      cases hstep
      exact { h with
        below := fun _ ↦ hi
        stop := by simp
        loops := by simp [hloops, List.range_succ] }
    · next hi =>
      cases hstep
      have hbound := h.bound
      exact { h with
        below := by simp
        stop := fun _ ↦ by simp only; omega
        loops := by simp [hloops] }
  · next hpc =>
    have hi : s.i < n := h.below (Or.inl hpc)
    have hloops := h.loops
    simp only [hpc, true_or, ite_true] at hloops
    cases hstep
    exact { h with
      below := fun _ ↦ hi
      stop := by simp
      loops := by simp [hloops] }
  · next hpc =>
    have hi : s.i < n := h.below (Or.inr hpc)
    have hloops := h.loops
    simp only [hpc, or_true, ite_true] at hloops
    have hfresh : ¬ (s.i ∈ s.tpTasks ∨ ∃ w, (s.workers w).task = some s.i) := by
      rw [h.posted]
      omega
    rw [not_or, not_exists] at hfresh
    cases hstep
    exact { h with
      bound := hi
      below := by simp
      stop := by simp
      loops := by simp [hloops]
      queue := by
        rw [List.nodup_append]
        refine ⟨h.queue, List.nodup_singleton _, ?_⟩
        intro a ha b hb hab
        cases List.mem_singleton.mp hb
        exact hfresh.1 (hab ▸ ha)
      posted := by
        intro x
        have hx := h.posted x
        simp only [List.mem_append, List.mem_singleton]
        constructor
        · rintro ((hq | rfl) | hw)
          · have := hx.mp (Or.inl hq); omega
          · omega
          · have := hx.mp (Or.inr hw); omega
        · intro hlt
          by_cases he : x = s.i
          · exact Or.inl (Or.inr he)
          · rcases hx.mpr (by omega) with hq | hw
            · exact Or.inl (Or.inl hq)
            · exact Or.inr hw
      queued := by
        intro x hx w
        rcases List.mem_append.mp hx with hx | hx
        · exact h.queued x hx w
        · cases List.mem_singleton.mp hx
          exact hfresh.2 w }
  · cases hstep

/-- A step of a worker keeps every task in its place. -/
theorem Placed.workerStep (h : s.Placed n) {a : StartAction} (ha : a ≠ .start)
    (hstep : s.step n a = some s') : s'.Placed n := by
  cases a with
  | start => exact absurd rfl ha
  | take w =>
    simp only [StartState.step] at hstep
    split at hstep
    · next x rest hidle hqueue =>
      split at hstep
      · next hw =>
        have hnodup := h.queue
        rw [hqueue, List.nodup_cons] at hnodup
        have hxq : x ∈ s.tpTasks := by rw [hqueue]; exact List.mem_cons_self
        have hrest : ∀ y ∈ rest, y ∈ s.tpTasks := by
          intro y hy
          rw [hqueue]
          exact List.mem_cons_of_mem x hy
        cases hstep
        exact { h with
          queue := hnodup.2
          posted := by
            intro y
            rw [← h.posted y, hqueue, List.mem_cons]
            simp only [task_update]
            constructor
            · rintro (hy | ⟨w', hy⟩)
              · exact Or.inl (Or.inr hy)
              · split at hy
                · cases hy; exact Or.inl (Or.inl rfl)
                · exact Or.inr ⟨w', hy⟩
            · rintro ((rfl | hy) | ⟨w', hy⟩)
              · exact Or.inr ⟨w, by simp [WorkerPc.task]⟩
              · exact Or.inl hy
              · refine Or.inr ⟨w', ?_⟩
                have hne : w' ≠ w := by
                  rintro rfl
                  rw [hidle] at hy
                  cases hy
                rw [if_neg hne]
                exact hy
          queued := by
            intro y hy w'
            rw [task_update]
            split
            · intro hxy
              cases hxy
              exact hnodup.1 hy
            · exact h.queued y (hrest y hy) w'
          single := by
            intro w₁ w₂ y h₁ h₂
            rw [task_update] at h₁ h₂
            split at h₁ <;> split at h₂
            · omega
            · cases h₁; exact absurd h₂ (h.queued x hxq w₂)
            · cases h₂; exact absurd h₁ (h.queued x hxq w₁)
            · exact h.single w₁ w₂ y h₁ h₂
          inPool := by
            intro w' hne
            by_cases he : w' = w
            · rw [he]; exact hw
            · exact h.inPool w' (by simpa [he] using hne) }
      · cases hstep
    · cases hstep
  | enter w =>
    simp only [StartState.step] at hstep
    split at hstep
    · next x htaken =>
      -- whatever it reads, the worker keeps its task
      have moved {p : WorkerPc} (hp : p.task = some x) :
          ({ s with workers := Function.update s.workers w p } : StartState).Placed n := by
        have htask (w' : Nat) :
            (Function.update s.workers w p w').task = (s.workers w').task := by
          rw [task_update]
          split
          · next he => rw [he, htaken, hp]; rfl
          · rfl
        exact { h with
          posted := by simpa only [htask] using h.posted
          queued := by simpa only [htask] using h.queued
          single := by simpa only [htask] using h.single
          inPool := by
            intro w' hne
            by_cases he : w' = w
            · exact h.inPool w' (by rw [he, htaken]; simp)
            · exact h.inPool w' (by simpa [he] using hne) }
      split at hstep
      · cases hstep
        exact moved rfl
      · cases hstep
        exact moved rfl
    · cases hstep

/-- Every step keeps every task in its place. -/
theorem Placed.step (h : s.Placed n) {a : StartAction} (hstep : s.step n a = some s') :
    s'.Placed n := by
  by_cases ha : a = .start
  · subst ha
    exact h.starterStep hstep
  · exact h.workerStep ha hstep

/-- With a pool of `n` workers a queued task always finds an idle one. -/
theorem Placed.exists_idle (h : s.Placed n) (hn : n ≤ threadpoolMaxNum) {x : Nat}
    (hx : x ∈ s.tpTasks) : ∃ w < poolSize n, s.workers w = .idle := by
  by_contra hbusy
  push Not at hbusy
  have hxi : x < s.i := (h.posted x).mp (Or.inl hx)
  have hbound := h.bound
  -- all `n` workers would share the tasks other than the queued one
  have hmaps : ∀ w ∈ Finset.range n, ((s.workers w).task.getD 0) ∈ (Finset.range n).erase x := by
    intro w hw
    have hne := hbusy w (by rw [poolSize_eq hn]; exact Finset.mem_range.mp hw)
    obtain ⟨y, hy⟩ : ∃ y, (s.workers w).task = some y := by
      cases hw' : s.workers w with
      | idle => exact absurd hw' hne
      | taken y => exact ⟨y, rfl⟩
      | loops y l => exact ⟨y, rfl⟩
      | dangles y => exact ⟨y, rfl⟩
    have hyi : y < s.i := (h.posted y).mp (Or.inr ⟨w, hy⟩)
    rw [hy, Option.getD_some, Finset.mem_erase, Finset.mem_range]
    refine ⟨?_, by omega⟩
    rintro rfl
    exact h.queued y hx w hy
  have hcard : ((Finset.range n).erase x).card < (Finset.range n).card :=
    Finset.card_erase_lt_of_mem (Finset.mem_range.mpr (by omega))
  obtain ⟨w, hw, w', hw', hne, heq⟩ := Finset.exists_ne_map_eq_of_card_lt_of_maps_to hcard hmaps
  have htask (v : Nat) (hv : v ∈ Finset.range n) : ∃ y, (s.workers v).task = some y := by
    have hne := hbusy v (by rw [poolSize_eq hn]; exact Finset.mem_range.mp hv)
    cases hv' : s.workers v with
    | idle => exact absurd hv' hne
    | taken y => exact ⟨y, rfl⟩
    | loops y l => exact ⟨y, rfl⟩
    | dangles y => exact ⟨y, rfl⟩
  obtain ⟨y, hy⟩ := htask w hw
  obtain ⟨y', hy'⟩ := htask w' hw'
  rw [hy, hy', Option.getD_some, Option.getD_some] at heq
  subst heq
  exact hne (h.single w w' y hy hy')

/-- Until the start is over some thread can go on. -/
theorem Placed.live (h : s.Placed n) (hn : n ≤ threadpoolMaxNum) (hopen : ¬ s.Settled) :
    ∃ a t, s.step n a = some t := by
  by_cases hpc : s.pc = .finished
  · have hunread : ∃ x, s.Unread x := by
      by_contra hnone
      exact hopen ⟨hpc, not_exists.mp hnone⟩
    obtain ⟨x, hx | ⟨w, hw⟩⟩ := hunread
    · obtain ⟨w, hw, hidle⟩ := h.exists_idle hn hx
      cases hq : s.tpTasks with
      | nil => rw [hq] at hx; cases hx
      | cons y rest => exact ⟨.take w, _, by simp only [StartState.step, hidle, hq, if_pos hw]; rfl⟩
    · refine ⟨.enter w, ?_⟩
      simp only [StartState.step, hw]
      split <;> exact ⟨_, rfl⟩
  · refine ⟨.start, ?_⟩
    simp only [StartState.step, StartState.starterStep]
    cases hs : s.pc with
    | newLoop =>
      dsimp only
      split <;> exact ⟨_, rfl⟩
    | bindEv => exact ⟨_, rfl⟩
    | post => exact ⟨_, rfl⟩
    | finished => exact absurd hs hpc

/-! ### Schedules in which `ev` is read in time -/

/-- What such a schedule keeps in addition: an unread task finds its own loop in `ev`, and a
worker runs the loop of its own task and no dead one. -/
structure Matched (n : Nat) (s : StartState) : Prop extends s.Placed n where
  fresh : s.pc = .post → s.ev = some s.i
  unread : ∀ x, s.Unread x → s.ev = some x
  own : ∀ w x l, s.workers w = .loops x l → l = x
  alive : ∀ w x, s.workers w ≠ .dangles x
  clear : s.pc = .post → ∀ x, ¬ s.Unread x

/-- Before the first iteration no task has been posted. -/
theorem matched_init : StartState.init.Matched n := by
  refine { placed_init with fresh := ?_, unread := ?_, own := ?_, alive := ?_, clear := ?_ } <;>
    simp [StartState.init, StartState.Unread]

/-- A step by which no unread task loses `ev` keeps tasks and loops matched. -/
theorem Matched.step (h : s.Matched n) {a : StartAction} (hok : s.ReadInTime n a)
    (hstep : s.step n a = some s') : s'.Matched n := by
  have hplaced : s'.Placed n := h.toPlaced.step hstep
  cases a with
  | start =>
    simp only [StartState.step, StartState.starterStep] at hstep
    split at hstep
    · next hpc =>
      split at hstep
      · cases hstep
        exact { hplaced with
          fresh := by simp
          unread := h.unread
          own := h.own
          alive := h.alive
          clear := by simp }
      · next hi =>
        have hclear := hok rfl (Or.inr ⟨hpc, Nat.not_lt.mp hi⟩)
        cases hstep
        exact { hplaced with
          fresh := by simp
          unread := fun x hx ↦ absurd hx (hclear x)
          own := h.own
          alive := h.alive
          clear := by simp }
    · next hpc =>
      have hclear := hok rfl (Or.inl hpc)
      have hloops := h.loops
      simp only [hpc, true_or, ite_true] at hloops
      cases hstep
      exact { hplaced with
        fresh := fun _ ↦ by simp [hloops]
        unread := fun x hx ↦ absurd hx (hclear x)
        own := h.own
        alive := h.alive
        clear := fun _ ↦ hclear }
    · next hpc =>
      cases hstep
      refine { hplaced with
        fresh := by simp
        unread := ?_
        own := h.own
        alive := h.alive
        clear := by simp }
      rintro x (hx | hx)
      · rcases List.mem_append.mp hx with hx | hx
        · exact absurd (Or.inl hx) (h.clear hpc x)
        · cases List.mem_singleton.mp hx
          exact h.fresh hpc
      · exact absurd (Or.inr hx) (h.clear hpc x)
    · cases hstep
  | take w =>
    simp only [StartState.step] at hstep
    split at hstep
    · next x rest hidle hqueue =>
      split at hstep
      · have hx : s.Unread x := Or.inl (by rw [hqueue]; exact List.mem_cons_self)
        -- taking a task off the queue leaves it unread
        have hback : ∀ y, (y ∈ rest ∨ ∃ w', Function.update s.workers w (.taken x) w' = .taken y) →
            s.Unread y := by
          rintro y (hy | ⟨w', hy⟩)
          · exact Or.inl (by rw [hqueue]; exact List.mem_cons_of_mem x hy)
          · by_cases he : w' = w
            · subst he
              rw [Function.update_self] at hy
              cases hy
              exact hx
            · rw [Function.update_of_ne he] at hy
              exact Or.inr ⟨w', hy⟩
        cases hstep
        refine { hplaced with
          fresh := h.fresh
          unread := fun y hy ↦ h.unread y (hback y hy)
          own := ?_
          alive := ?_
          clear := fun hpc y hy ↦ h.clear hpc y (hback y hy) }
        · intro w' y l hy
          by_cases he : w' = w
          · subst he
            simp at hy
          · exact h.own w' y l (by simpa [he] using hy)
        · intro w' y hy
          by_cases he : w' = w
          · subst he
            simp at hy
          · exact h.alive w' y (by simpa [he] using hy)
      · cases hstep
    · cases hstep
  | enter w =>
    simp only [StartState.step] at hstep
    split at hstep
    · next x htaken =>
      obtain ⟨l, hl, hown⟩ : ∃ l, s.ev = some l ∧ l = x := ⟨x, h.unread x (Or.inr ⟨w, htaken⟩), rfl⟩
      simp only [hl] at hstep
      have hback : ∀ y, (y ∈ s.tpTasks ∨
          ∃ w', Function.update s.workers w (.loops x l) w' = .taken y) → s.Unread y := by
        rintro y (hy | ⟨w', hy⟩)
        · exact Or.inl hy
        · by_cases he : w' = w
          · subst he
            simp at hy
          · exact Or.inr ⟨w', by simpa [he] using hy⟩
      cases hstep
      refine { hplaced with
        fresh := fun hpc ↦ hl.symm.trans (h.fresh hpc)
        unread := fun y hy ↦ hl.symm.trans (h.unread y (hback y hy))
        own := ?_
        alive := ?_
        clear := fun hpc y hy ↦ h.clear hpc y (hback y hy) }
      · intro w' y m hy
        by_cases he : w' = w
        · subst he
          simp only [Function.update_self, WorkerPc.loops.injEq] at hy
          obtain ⟨rfl, rfl⟩ := hy
          exact hown
        · exact h.own w' y m (by simpa [he] using hy)
      · intro w' y hy
        by_cases he : w' = w
        · subst he
          simp at hy
        · exact h.alive w' y (by simpa [he] using hy)
    · cases hstep

/-- Matched tasks and loops give every event loop a worker of its own. -/
theorem Matched.loopsApart (h : s.Matched n) (hn : n ≤ threadpoolMaxNum) : s.LoopsApart n := by
  refine ⟨?_, ?_, h.live hn⟩
  · rintro w w' l ⟨x, hx⟩ ⟨x', hx'⟩
    have hlx := h.own w x l hx
    have hlx' := h.own w' x' l hx'
    exact h.single w w' l (by rw [hx, hlx]; rfl) (by rw [hx', hlx']; rfl)
  · rintro ⟨hpc, hread⟩ l hl
    have hli : l < s.i := by rw [h.stop hpc]; exact hl
    rcases (h.posted l).mpr hli with hq | ⟨w, hw⟩
    · exact absurd (Or.inl hq) (hread l)
    · refine ⟨w, h.inPool w (by intro hidle; rw [hidle] at hw; cases hw), ?_⟩
      cases hs : s.workers w with
      | idle => rw [hs] at hw; cases hw
      | taken x => exact absurd (Or.inr ⟨w, hs⟩) (hread x)
      | loops x m =>
        rw [hs] at hw
        cases hw
        have hm := h.own w l m hs
        exact ⟨l, by rw [hs, hm]⟩
      | dangles x => exact absurd hs (h.alive w x)

/-- In every schedule of a start of `n ≤ 64` loops in which every posted task has read `ev` before
it is assigned again and before its life ends with the loop of `start`, the loops are run by
distinct workers, each by exactly one. -/
theorem start_loops_apart (hn : n ≤ threadpoolMaxNum)
    (h : ReachBy (StartState.step n) (StartState.ReadInTime n) StartState.init s) :
    s.LoopsApart n := by
  have hmatched : s.Matched n :=
    h.invariant matched_init fun _ _ _ hs hok hstep ↦ hs.step hok hstep
  exact hmatched.loopsApart hn

end StartState

/-- A schedule for two loops in which each worker reads `ev` before it is assigned again and before
the loop of `start` ends. -/
def promptWorkersRun : List StartAction :=
  [.start, .start, .start, .take 0, .enter 0, .start, .start, .start, .take 1, .enter 1, .start]

/-- A schedule for two loops in which both workers come after the second iteration. -/
def lateWorkersRun : List StartAction :=
  [.start, .start, .start, .start, .start, .start, .take 0, .enter 0, .take 1, .enter 1]

/-- In the first schedule both loops are run, each by its own worker. -/
theorem prompt_workers_apart :
    ∃ s, run (StartState.step 2) StartState.init promptWorkersRun = some s ∧ s.LoopsApart 2 := by
  obtain ⟨s, hrun⟩ : ∃ s, run (StartState.step 2) StartState.init promptWorkersRun = some s :=
    ⟨_, rfl⟩
  refine ⟨s, hrun, StartState.start_loops_apart (by decide) (reachBy_of_run hrun ?_)⟩
  have other {s : StartState} {a : StartAction}
      (h : a ≠ .start ∨ (s.pc ≠ .bindEv ∧ (s.pc ≠ .newLoop ∨ s.i < 2))) : s.ReadInTime 2 a := by
    rintro ha (hpc | ⟨hpc, hi⟩)
    · exact absurd hpc (h.resolve_left (absurd ha)).1
    · have hlater := (h.resolve_left (absurd ha)).2.resolve_left (absurd hpc)
      exact absurd hi (Nat.not_le.mpr hlater)
  -- `ev` is assigned in the second and in the seventh step and dies in the last, with nothing left
  -- unread
  refine .cons (other (by decide)) rfl (.cons ?_ rfl (.cons (other (by decide)) rfl
    (.cons (other (by decide)) rfl (.cons (other (by decide)) rfl
    (.cons (other (by decide)) rfl (.cons ?_ rfl (.cons (other (by decide)) rfl
    (.cons (other (by decide)) rfl (.cons (other (by decide)) rfl
    (.cons ?_ rfl trivial))))))))))
  · rintro - - x (hx | ⟨w, hw⟩)
    · cases hx
    · cases hw
  · rintro - - x (hx | ⟨w, hw⟩)
    · cases hx
    · by_cases he : w = 0
      · subst he; cases hw
      · simp [StartState.init, he] at hw
  · rintro - - x (hx | ⟨w, hw⟩)
    · cases hx
    · by_cases he : w = 0
      · subst he; cases hw
      · by_cases he' : w = 1
        · subst he'; cases hw
        · simp [StartState.init, he, he'] at hw

/-- A worker that comes after the loop of `start` finds its slot dead. -/
example : ∃ s, run (StartState.step 1) StartState.init
    [.start, .start, .start, .start, .take 0, .enter 0] = some s ∧ s.workers 0 = .dangles 0 :=
  ⟨_, rfl, by decide⟩

/-- In this schedule both workers run the second loop. -/
theorem late_workers_share_loop :
    ¬ ∀ n, 1 ≤ n → n ≤ threadpoolMaxNum → ∀ s,
      Reach (StartState.step n) StartState.init s → s.LoopsApart n := by
  intro h
  obtain ⟨s, hrun, h₀, h₁⟩ : ∃ s,
      run (StartState.step 2) StartState.init lateWorkersRun = some s ∧
        s.workers 0 = .loops 0 1 ∧ s.workers 1 = .loops 1 1 := ⟨_, rfl, by decide, by decide⟩
  have hapart := (h 2 (by decide) (by decide) s (reach_of_run hrun)).apart
  exact absurd (hapart 0 1 1 ⟨0, h₀⟩ ⟨1, h₁⟩) (by decide)

end ConcurrentServer.Net
