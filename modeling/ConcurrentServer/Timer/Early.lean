import ConcurrentServer.Timer.Cancel
import ConcurrentServer.Timer.Order

/-!
# Timers are not early

`src/timer/timer.h:60–158`. A node is pushed with the time point of its call, and pushed again with
one that is a period after a reading of the clock. Each expiry may come up to a millisecond before
the time point. If the clock never goes back, the executions of a callback keep the distances that
this leaves, from the call on.
-/

namespace ConcurrentServer.Timer
open ConcurrentServer.Base

/-- What a time point may be anticipated by: the test of `run_local` cuts off to milliseconds. -/
def slack : Int := nsPerMs - 1

/-- The earliest reading of the clock for the `i`-th execution, `i ≥ 1`, of what a call registers
that read `now`. -/
def RunCall.earliest (now : Int) : RunCall → Nat → Int
  | .runAfter msTime _, i | .runRepeated msTime _, i => now + i * (msTime * nsPerMs - slack)
  | .runAt timePoint, _ => timePoint - slack

/-- The nodes have the same kind and period. -/
structure TimerNode.SameKind (n m : TimerNode) : Prop where
  isPeriod : n.tnIsPeriod = m.tnIsPeriod
  isRepeated : n.tnIsRepeated = m.tnIsRepeated
  period : n.tnPeriod = m.tnPeriod

/-- The node whose id is about to be looked up. -/
def TickPc.checking : TickPc → List TimerNode
  | .isKeyExist s _ => [s]
  | _ => []

@[simp] theorem checking_notified (pc : TickPc) : pc.notified.checking = pc.checking := by
  cases pc <;> rfl

/-- The reading of the clock that comes with an action. -/
def TimerAction.reading : TimerAction → Option Int
  | .runStep _ now | .tick now | .tickTop _ now => some now
  | _ => none

namespace RunCall

variable {call : RunCall} {k : Nat} {id now : Int}

/-- The time point of a call is its first one. -/
theorem earliest_one (call : RunCall) (k : Nat) (id now : Int) :
    call.earliest now 1 + slack = (call.node k id now).tnTmPoint := by
  cases call <;> simp only [earliest, node] <;> omega

/-- A node that is pushed again is a period behind. -/
theorem earliest_rearmed {n n' : TimerNode} {i : Nat} {read : Int}
    (kind : n.SameKind (call.node k id now)) (due : call.earliest now i ≤ read)
    (again : n.rearmed read = some n') :
    call.earliest now (i + 1) + slack ≤ n'.tnTmPoint ∧ n'.SameKind (call.node k id now) := by
  obtain ⟨hperiod, hrepeated, hms⟩ := kind
  unfold TimerNode.rearmed at again
  cases call with
  | runAt timePoint =>
    rw [hperiod, hrepeated] at again
    cases again
  | runAfter msTime isPeriod | runRepeated msTime repeatedNum =>
    have hpoint : n'.tnTmPoint = read + msTime * nsPerMs ∧ n'.tnIsPeriod = n.tnIsPeriod ∧
        n'.tnIsRepeated = n.tnIsRepeated ∧ n'.tnPeriod = n.tnPeriod := by
      rw [hms] at again
      split at again
      · cases again
        exact ⟨rfl, rfl, rfl, hms.symm⟩
      · split at again
        · cases again
          exact ⟨rfl, rfl, rfl, hms.symm⟩
        · cases again
    obtain ⟨htm, hp, hr, hm⟩ := hpoint
    refine ⟨?_, hp.trans hperiod, hr.trans hrepeated, hm.trans hms⟩
    simp only [earliest] at due ⊢
    rw [htm]
    push_cast
    rw [Int.add_mul]
    omega

end RunCall

namespace TimerSystem

/-- The clock, as it was last read. -/
def readClock (_ : TimerSystem) (a : TimerAction) (_ : TimerSystem) (clock : Int) : Int :=
  a.reading.getD clock

/-- The condition on a step: the clock does not go back. -/
def Forward (s : TimerSystem × Int) (a : TimerAction) : Prop := ∀ now ∈ a.reading, s.2 ≤ now

instance (s : TimerSystem × Int) (a : TimerAction) : Decidable (Forward s a) :=
  inferInstanceAs (Decidable (∀ now ∈ a.reading, s.2 ≤ now))

/-- The nodes whose expiry has not been granted. -/
def waiting (s : TimerSystem) : List TimerNode := s.tick.checking ++ s.tmQueue

/-- What is granted was due, and what waits is far enough ahead. -/
structure NotEarly (s : TimerSystem) (clock : Int) : Prop where
  granted : ∀ k call id now, (s.calls k).made? = some (call, call.node k id now) →
    ∀ i, 1 ≤ i → i ≤ s.granted k → call.earliest now i ≤ clock
  ahead : ∀ n ∈ s.waiting, ∀ call id now,
    (s.calls n.tnCallback).made? = some (call, call.node n.tnCallback id now) →
      call.earliest now (s.granted n.tnCallback + 1) + slack ≤ n.tnTmPoint
  kind : ∀ n ∈ s.nodes, ∀ call m, (s.calls n.tnCallback).made? = some (call, m) → n.SameKind m
  unpushed : ∀ k, (s.calls k).pushed? = none → s.granted k = 0

variable {s t : TimerSystem} {a : TimerAction} {clock clock' : Int}

/-- Before the first step. -/
theorem notEarly_init (start : Int) : init.NotEarly start where
  granted _ _ _ _ h := nomatch h
  ahead _ h := nomatch h
  kind _ h := nomatch h
  unpushed _ _ := rfl

/-- A step that grants, makes and queues nothing. -/
theorem NotEarly.mono (h : s.NotEarly clock) (le : clock ≤ clock')
    (granted : ∀ k, t.granted k = s.granted k)
    (made : ∀ k, (t.calls k).made? = (s.calls k).made?)
    (pushed : ∀ k p, (s.calls k).pushed? = some p → (t.calls k).pushed? = some p)
    (waiting : t.waiting ⊆ s.waiting) (nodes : t.nodes ⊆ s.nodes) : t.NotEarly clock' where
  granted k call id now hmade i hi hle := by
    rw [made] at hmade
    rw [granted] at hle
    exact Int.le_trans (h.granted k call id now hmade i hi hle) le
  ahead n hn call id now hmade := by
    rw [made] at hmade
    rw [granted]
    exact h.ahead n (waiting hn) call id now hmade
  kind n hn call m hmade := by
    rw [made] at hmade
    exact h.kind n (nodes hn) call m hmade
  unpushed k hk := by
    rw [granted]
    apply h.unpushed
    cases hs : (s.calls k).pushed? with
    | none => rfl
    | some p =>
      rw [pushed k p hs] at hk
      cases hk

/-- What waits has been pushed by its call. -/
theorem waiting_subset_nodes (s : TimerSystem) : s.waiting ⊆ s.nodes := by
  intro n hn
  refine List.mem_append.mpr ((List.mem_append.mp hn).imp_left fun hchecking ↦ ?_)
  cases htick : s.tick with
  | isKeyExist n' late =>
    rw [htick] at hchecking
    exact hchecking
  | _ =>
    rw [htick] at hchecking
    cases hchecking

/-- The call of a node has been pushed. -/
theorem Kept.pushed_of_mem (h : s.Kept) {n : TimerNode} (hn : n ∈ s.nodes) :
    (s.calls n.tnCallback).pushed? ≠ none := by
  obtain ⟨call, m, hpushed, -⟩ := h.of_mem hn
  rw [hpushed]
  exact nofun

/-- What is granted is read off two components. -/
theorem granted_congr (tick : t.tick = s.tick) (pool : t.tmThreadPool = s.tmThreadPool) (k : Nat) :
    t.granted k = s.granted k := by
  unfold granted
  rw [tick, pool]

/-- A call fills in its node. -/
theorem NotEarly.emplace (h : s.NotEarly clock) (kept : s.Kept) (le : clock ≤ clock') {k : Nat}
    {call : RunCall} {id : Int} (at_ : s.calls k = .emplace call id) (now : Int)
    (calls : t.calls = Function.update s.calls k (.lock call (call.node k id now)))
    (tick : t.tick = s.tick) (queue : t.tmQueue = s.tmQueue)
    (pool : t.tmThreadPool = s.tmThreadPool) : t.NotEarly clock' := by
  have hgranted := granted_congr tick pool
  have hwaiting : t.waiting = s.waiting := by
    unfold waiting
    rw [tick, queue]
  have hnodes : t.nodes = s.nodes := by
    unfold nodes
    rw [tick, queue]
  have hunpushed : (s.calls k).pushed? = none := by
    rw [at_]
    rfl
  have hother {k' : Nat} (hk : k' ≠ k) : t.calls k' = s.calls k' := by
    rw [calls, Function.update_of_ne hk]
  have hne {n : TimerNode} (hn : n ∈ s.nodes) : n.tnCallback ≠ k := by
    intro hk
    have hpushed := kept.pushed_of_mem hn
    rw [hk] at hpushed
    exact hpushed hunpushed
  constructor
  · intro k' call' id' now' hmade i hi hle
    rw [hgranted] at hle
    by_cases hk : k' = k
    · rw [hk, h.unpushed k hunpushed] at hle
      omega
    · rw [hother hk] at hmade
      exact Int.le_trans (h.granted k' call' id' now' hmade i hi hle) le
  · intro n hn call' id' now' hmade
    rw [hwaiting] at hn
    rw [hother (hne (s.waiting_subset_nodes hn))] at hmade
    rw [hgranted]
    exact h.ahead n hn call' id' now' hmade
  · intro n hn call' m hmade
    rw [hnodes] at hn
    rw [hother (hne hn)] at hmade
    exact h.kind n hn call' m hmade
  · intro k' hk'
    rw [hgranted]
    by_cases hk : k' = k
    · rw [hk]
      exact h.unpushed k hunpushed
    · rw [hother hk] at hk'
      exact h.unpushed k' hk'

/-- A call pushes its node. -/
theorem NotEarly.push (h : s.NotEarly clock) (kept : s.Kept) (le : clock ≤ clock') {k : Nat}
    {call : RunCall} {n : TimerNode} (at_ : s.calls k = .push call n)
    (calls : t.calls = Function.update s.calls k (.notify call n))
    (tick : t.tick = s.tick) (queue : t.tmQueue = n :: s.tmQueue)
    (pool : t.tmThreadPool = s.tmThreadPool) : t.NotEarly clock' := by
  have hgranted := granted_congr tick pool
  have hwaiting {n' : TimerNode} (hn' : n' ∈ t.waiting) : n' = n ∨ n' ∈ s.waiting := by
    unfold waiting at hn' ⊢
    rw [tick, queue] at hn'
    simp only [List.mem_append, List.mem_cons] at hn' ⊢
    tauto
  have hnodes {n' : TimerNode} (hn' : n' ∈ t.nodes) : n' = n ∨ n' ∈ s.nodes := by
    unfold nodes at hn' ⊢
    rw [tick, queue] at hn'
    simp only [List.mem_append, List.mem_cons] at hn' ⊢
    tauto
  have hmadek : (s.calls k).made? = some (call, n) := by
    rw [at_]
    rfl
  have hmade (k' : Nat) : (t.calls k').made? = (s.calls k').made? := by
    rw [calls]
    by_cases hk : k' = k
    · rw [hk, Function.update_self, hmadek]
      rfl
    · rw [Function.update_of_ne hk]
  have hcallback : n.tnCallback = k := by
    obtain ⟨id, now, rfl⟩ := kept.made k call n hmadek
    cases call <;> rfl
  have hnone : s.granted k = 0 := h.unpushed k (by rw [at_]; rfl)
  constructor
  · intro k' call' id' now' hk' i hi hle
    rw [hmade] at hk'
    rw [hgranted] at hle
    exact Int.le_trans (h.granted k' call' id' now' hk' i hi hle) le
  · intro n' hn' call' id' now' hk'
    rw [hmade] at hk'
    rw [hgranted]
    rcases hwaiting hn' with rfl | hold
    · rw [hcallback] at hk' ⊢
      rw [hmadek] at hk'
      obtain ⟨rfl, hn⟩ := Prod.mk.inj (Option.some.inj hk')
      rw [hnone, hn]
      exact (call.earliest_one k id' now').le
    · exact h.ahead n' hold call' id' now' hk'
  · intro n' hn' call' m hk'
    rw [hmade] at hk'
    rcases hnodes hn' with rfl | hold
    · rw [hcallback, hmadek] at hk'
      obtain ⟨-, rfl⟩ := Prod.mk.inj (Option.some.inj hk')
      exact ⟨rfl, rfl, rfl⟩
    · exact h.kind n' hold call' m hk'
  · intro k' hk'
    rw [hgranted]
    by_cases hk : k' = k
    · rw [hk]
      exact hnone
    · rw [calls, Function.update_of_ne hk] at hk'
      exact h.unpushed k' hk'

/-- The tick thread finds the id of a node that was due. -/
theorem NotEarly.found (h : s.NotEarly clock) (kept : s.Kept) (le : clock ≤ clock')
    {n : TimerNode} {late : Bool} (at_ : s.tick = .isKeyExist n late)
    (due : n.tnTmPoint ≤ clock + slack) (holder : Option Holder) :
    (s.setTick (.rearm n late) holder).NotEarly clock' := by
  have hnodes : s.nodes = n :: s.tmQueue := by
    unfold nodes
    rw [at_]
    rfl
  have hgranted (k : Nat) :
      (s.setTick (.rearm n late) holder).granted k = [n.tnCallback].count k + s.granted k := by
    change [n.tnCallback].count k + s.tmThreadPool.accepted k = _
    unfold TimerSystem.granted
    rw [at_]
    change _ = _ + (0 + _)
    omega
  -- No other node has the callback that is granted.
  have hother {n' : TimerNode} (hn' : n' ∈ s.tmQueue) : n'.tnCallback ≠ n.tnCallback := by
    intro hcallback
    obtain ⟨-, -, -, -, hone⟩ := kept.of_mem (n := n) (by rw [hnodes]; exact List.mem_cons_self)
    rw [nodesOf_cons hnodes, if_pos rfl, List.cons_eq_cons] at hone
    have hmem : n' ∈ s.tmQueue.filter fun m ↦ m.tnCallback == n.tnCallback :=
      List.mem_filter.mpr ⟨hn', beq_iff_eq.mpr hcallback⟩
    rw [hone.2] at hmem
    cases hmem
  constructor
  · intro k call id now hmade i hi hle
    rw [hgranted] at hle
    by_cases hk : n.tnCallback = k
    · subst hk
      rw [List.count_singleton_self] at hle
      rcases Nat.lt_or_ge (s.granted n.tnCallback) i with hlt | hge
      · have hahead := h.ahead n (by unfold waiting; rw [at_]; exact List.mem_cons_self) call id
          now hmade
        have hi' : i = s.granted n.tnCallback + 1 := by omega
        rw [hi']
        omega
      · exact Int.le_trans (h.granted _ call id now hmade i hi hge) le
    · rw [List.count_eq_zero.mpr fun hmem ↦ hk (List.mem_singleton.mp hmem).symm,
        Nat.zero_add] at hle
      exact Int.le_trans (h.granted k call id now hmade i hi hle) le
  · intro n' hn' call id now hmade
    have hqueue : n' ∈ s.tmQueue := hn'
    rw [hgranted, List.count_eq_zero.mpr fun hmem ↦ hother hqueue (List.mem_singleton.mp hmem),
      Nat.zero_add]
    exact h.ahead n' (List.mem_append_right _ hqueue) call id now hmade
  · intro n' hn' call m hmade
    refine h.kind n' ?_ call m hmade
    rw [hnodes]
    exact hn'
  · intro k hk
    have hne : k ≠ n.tnCallback := by
      rintro rfl
      exact kept.pushed_of_mem (n := n) (by rw [hnodes]; exact List.mem_cons_self) hk
    rw [hgranted, List.count_eq_zero.mpr fun hmem ↦ hne (List.mem_singleton.mp hmem), Nat.zero_add]
    exact h.unpushed k hk

/-- The tick thread pushes the node again, or is done with it. -/
theorem NotEarly.rearm (h : s.NotEarly clock) (kept : s.Kept) {n : TimerNode} {late : Bool}
    (at_ : s.tick = .rearm n late) {now : Int} (le : clock ≤ now)
    (tick : t.tick = .unlock n.tnCallback late)
    (queue : t.tmQueue = (n.rearmed now).toList ++ s.tmQueue) (calls : t.calls = s.calls)
    (pool : t.tmThreadPool = s.tmThreadPool) : t.NotEarly now := by
  have hnodes : n ∈ s.nodes := by
    unfold nodes
    rw [at_]
    exact List.mem_cons_self
  have hgranted (k : Nat) : t.granted k = s.granted k := by
    unfold TimerSystem.granted
    rw [tick, pool, at_]
    rfl
  have hpos : 1 ≤ s.granted n.tnCallback := by
    unfold TimerSystem.granted
    rw [at_]
    change 1 ≤ [n.tnCallback].count n.tnCallback + _
    rw [List.count_singleton_self]
    omega
  have hcases {n' : TimerNode} (hn' : n' ∈ t.tmQueue) :
      n.rearmed now = some n' ∨ n' ∈ s.tmQueue := by
    rw [queue] at hn'
    exact (List.mem_append.mp hn').imp_left Option.mem_toList.mp
  have hagain {n' : TimerNode} (again : n.rearmed now = some n') {call : RunCall} {id read : Int}
      (hmade : (s.calls n'.tnCallback).made? = some (call, call.node n'.tnCallback id read)) :
      call.earliest read (s.granted n'.tnCallback + 1) + slack ≤ n'.tnTmPoint ∧
        n'.SameKind (call.node n'.tnCallback id read) := by
    rw [tnCallback_rearmed again] at hmade ⊢
    exact RunCall.earliest_rearmed (h.kind n hnodes call _ hmade)
      (Int.le_trans (h.granted _ call id read hmade _ hpos (Nat.le_refl _)) le) again
  constructor
  · intro k call id read hmade i hi hle
    rw [calls] at hmade
    rw [hgranted] at hle
    exact Int.le_trans (h.granted k call id read hmade i hi hle) le
  · intro n' hn' call id read hmade
    rw [calls] at hmade
    rw [hgranted]
    have hqueue : n' ∈ t.tmQueue := by
      unfold waiting at hn'
      rw [tick] at hn'
      exact hn'
    rcases hcases hqueue with again | hold
    · exact (hagain again hmade).1
    · exact h.ahead n' (List.mem_append_right _ hold) call id read hmade
  · intro n' hn' call m hmade
    rw [calls] at hmade
    have hqueue : n' ∈ t.tmQueue := by
      unfold nodes at hn'
      rw [tick] at hn'
      exact hn'
    rcases hcases hqueue with again | hold
    · obtain ⟨id, read, rfl⟩ := kept.made _ call m hmade
      exact (hagain again hmade).2
    · exact h.kind n' (mem_nodes.mpr (Or.inr hold)) call m hmade
  · intro k hk
    rw [calls] at hk
    rw [hgranted]
    exact h.unpushed k hk

/-- A step at which a call goes on and nothing else concerns the nodes. -/
theorem NotEarly.call (h : s.NotEarly clock) (le : clock ≤ clock') {k : Nat} {pc : RunPc}
    (made : pc.made? = (s.calls k).made?)
    (pushed : ∀ p, (s.calls k).pushed? = some p → pc.pushed? = some p)
    (calls : t.calls = Function.update s.calls k pc) (granted : ∀ k, t.granted k = s.granted k)
    (checking : t.tick.checking = s.tick.checking) (inHand : t.tick.inHand = s.tick.inHand)
    (queue : t.tmQueue = s.tmQueue) : t.NotEarly clock' := by
  refine h.mono le granted (fun k' ↦ ?_) (fun k' p hp ↦ ?_) ?_ ?_
  · rw [calls]
    exact apply_update_of_same RunPc.made? made k'
  · rw [calls]
    exact apply_update_of_keeps hp (pushed p)
  · unfold waiting
    rw [checking, queue]
    exact List.Subset.refl _
  · unfold nodes
    rw [inHand, queue]
    exact List.Subset.refl _

/-- A step at which no call goes on and nothing is granted. -/
theorem NotEarly.quiet (h : s.NotEarly clock) (le : clock ≤ clock')
    (granted : ∀ k, t.granted k = s.granted k) (calls : t.calls = s.calls)
    (waiting : t.waiting ⊆ s.waiting) (nodes : t.nodes ⊆ s.nodes) : t.NotEarly clock' := by
  refine h.mono le granted (fun k ↦ by rw [calls]) (fun k p hp ↦ ?_) waiting nodes
  rw [calls]
  exact hp

/-- The tick thread moves on, and the nodes stay or are fewer. -/
theorem NotEarly.tickMove (h : s.NotEarly clock) (kept : s.Kept) (le : clock ≤ clock')
    (due : ∀ n late, s.tick = .isKeyExist n late → n.tnTmPoint ≤ clock + slack) {pc : TickPc}
    {holder : Option Holder} (move : TickMove s pc holder) :
    (s.setTick pc holder).NotEarly clock' := by
  cases move with
  | found n late at_ key => exact h.found kept le at_ (due n late at_) s.tmMutex
  | start at_ | enter at_ | leave at_ | lock at_ free | empty at_ queue | some_ at_ | wait at_
  | woken notified at_ free | early n at_ top | due n at_ top | waitFor n at_
  | wokenFor n notified at_ free | unlock callback late at_ | post callback late at_ =>
    refine h.quiet le (fun k ↦ ?_) rfl ?_ ?_
    · unfold TimerSystem.granted
      rw [at_]
      rfl
    · unfold waiting
      rw [at_]
      exact List.Subset.refl _
    · unfold nodes
      rw [at_]
      exact List.Subset.refl _

/-- Every step under a clock that does not go back. -/
theorem NotEarly.step (h : s.NotEarly clock) (kept : s.Kept)
    (due : ∀ n late, s.tick = .isKeyExist n late → n.tnTmPoint ≤ clock + slack)
    (forward : ∀ now ∈ a.reading, clock ≤ now) (hstep : Step s a t) :
    t.NotEarly (a.reading.getD clock) := by
  have le : clock ≤ a.reading.getD clock := by
    cases hread : a.reading with
    | none => exact Int.le_refl _
    | some now => exact forward now hread
  have hgranted : (∀ n late, s.tick ≠ .isKeyExist n late) → ∀ k, t.granted k = s.granted k := by
    intro htick k
    rcases granted_step hstep k with hsame | ⟨n, late, at_, -⟩
    · exact hsame
    · exact absurd at_ (htick n late)
  cases hstep with
  | run k call at_ | fetchAdd k now call at_ =>
    refine h.call le (by rw [at_]; rfl) (fun p hp ↦ ?_) rfl (fun _ ↦ rfl) rfl rfl rfl
    rw [at_] at hp
    cases hp
  | emplace k now call id at_ => exact h.emplace kept le at_ now rfl rfl rfl rfl
  | lockCall k now call n at_ free | unlockCall k now call n at_ =>
    refine h.call le (by rw [at_]; rfl) (fun p hp ↦ ?_) rfl (fun _ ↦ rfl) rfl rfl rfl
    rw [at_] at hp
    exact hp
  | push k now call n at_ => exact h.push kept le at_ rfl rfl rfl rfl
  | notifyCall k now call n at_ =>
    refine h.call le (by rw [at_]; rfl) (fun p hp ↦ ?_) rfl (fun k' ↦ ?_)
      (checking_notified s.tick) (inHand_notified s.tick) rfl
    · rw [at_] at hp
      exact hp
    · unfold TimerSystem.granted
      rw [found_notified]
      rfl
  | tickMove a pc holder move => exact h.tickMove kept le due move
  | pop now n at_ =>
    have hmem : n ∈ s.tmQueue := kept.popped n at_
    have hsubset : n :: s.tmQueue.erase n ⊆ s.tmQueue :=
      List.cons_subset.mpr ⟨hmem, List.erase_subset⟩
    refine h.quiet le (hgranted fun _ _ ↦ by rw [at_]; exact nofun) rfl ?_ ?_
    · exact List.Subset.trans hsubset (List.subset_append_right _ _)
    · exact List.Subset.trans hsubset (List.subset_append_right _ _)
  | drop now n late at_ key =>
    refine h.quiet le (fun k ↦ ?_) rfl ?_ ?_
    · unfold TimerSystem.granted
      rw [at_]
      rfl
    · exact List.subset_append_right _ _
    · exact List.subset_append_right _ _
  | rearm now n late at_ => exact h.rearm kept at_ le rfl rfl rfl rfl
  | postTask now callback late pool at_ emplaced =>
    refine h.quiet le (hgranted fun _ _ ↦ by rw [at_]; exact nofun) rfl ?_ ?_
    · exact List.subset_append_right _ _
    · exact List.subset_append_right _ _
  | notify who pool at_ notified =>
    refine h.quiet le (hgranted fun _ _ ↦ by rw [at_]; exact nofun) rfl ?_ ?_
    · exact List.subset_append_right _ _
    · exact List.subset_append_right _ _
  | worker w pool moved =>
    refine h.quiet le (fun k ↦ ?_) rfl (List.Subset.refl _) (List.Subset.refl _)
    change s.tick.found.count k + pool.accepted k = _
    rw [Pool.Threadpool.accepted_workerStep moved k]
    rfl
  | destroyPool a pool pc pc' pc'' moved =>
    refine h.quiet le (fun k ↦ ?_) rfl (List.Subset.refl _) (List.Subset.refl _)
    change s.tick.found.count k + pool.accepted k = _
    rw [Pool.Threadpool.accepted_destructorStep moved k]
    rfl
  | notifyTick a pc =>
    refine h.quiet le (fun k ↦ ?_) rfl ?_ ?_
    · unfold TimerSystem.granted
      rw [found_notified]
    · unfold waiting
      rw [checking_notified]
      exact List.Subset.refl _
    · unfold nodes
      rw [inHand_notified]
      exact List.Subset.refl _
  | cancel | cancelTest | cancelErase | cancelRet | destructor =>
    exact h.quiet le (fun _ ↦ rfl) rfl (List.Subset.refl _) (List.Subset.refl _)

/-- What the tick thread has last looked at, it has compared with a reading up to now. -/
theorem note_top_le {g : Postings} (h : ∀ n test, g.top = some (n, test) → test ≤ clock)
    (forward : ∀ now ∈ a.reading, clock ≤ now) {n : TimerNode} {test : Int}
    (top : (note s a t g).top = some (n, test)) : test ≤ a.reading.getD clock := by
  cases a with
  | tickTop n' now =>
    cases top
    exact Int.le_refl _
  | tick now =>
    have hold : g.top = some (n, test) := by
      simp only [note] at top
      split at top <;> exact top
    exact Int.le_trans (h n test hold) (forward now rfl)
  | runStep k now => exact Int.le_trans (h n test top) (forward now rfl)
  | _ => exact h n test top

/-- What holds in every state that is reached while the clock does not go back. -/
structure Clocked (s : TimerSystem) (clock : Int) (g : Postings) : Prop where
  sound : s.Sound
  noted : s.PostsNoted g
  top : ∀ n test, g.top = some (n, test) → test ≤ clock
  notEarly : s.NotEarly clock

/-- Every step. -/
theorem Clocked.step {g : Postings} (h : s.Clocked clock g)
    (forward : ∀ now ∈ a.reading, clock ≤ now) (hstep : s.step a = some t) :
    t.Clocked (a.reading.getD clock) (note s a t g) where
  sound := h.sound.step (step_inversion hstep)
  noted := h.noted.step hstep
  top _ _ top := note_top_le h.top forward top
  notEarly := by
    refine h.notEarly.step h.sound.kept (fun n late at_ ↦ ?_) forward (step_inversion hstep)
    have hserves := h.noted.serves
    rw [at_] at hserves
    obtain ⟨test, htop, hlt⟩ := hserves
    have hle := h.top n test htop
    unfold slack
    omega

end TimerSystem

/-- Timers are not early. If the clock does not go back, then by the time that `i` executions of a
callback have started, the clock has reached what the call, which read `now`, leaves for the `i`-th:
the time point of `run_at` less a millisecond, and for the others the call's own reading and `i`
delays of a millisecond less each. -/
theorem timers_never_early {start : Int} {s : TimerSystem × Int}
    (h : ReachBy (withHistory TimerSystem.step TimerSystem.readClock) TimerSystem.Forward
      (.init, start) s) {k : Nat} {call : RunCall} {id now : Int}
    (made : (s.1.calls k).made? = some (call, call.node k id now)) {i : Nat} (first : 1 ≤ i)
    (started : i ≤ s.1.started k) : call.earliest now i ≤ s.2 := by
  obtain ⟨g, hg⟩ : ∃ g, ReachBy (withHistory (withHistory TimerSystem.step TimerSystem.readClock)
      fun s a t g ↦ TimerSystem.note s.1 a t.1 g) (fun s a ↦ TimerSystem.Forward s.1 a)
        ((.init, start), ⟨none, []⟩) (s, g) :=
    h.noted (⟨none, []⟩ : TimerSystem.Postings)
  have hclocked : s.1.Clocked s.2 g := by
    apply hg.invariant (P := fun x ↦ x.1.1.Clocked x.1.2 x.2)
    · exact ⟨TimerSystem.sound_init, ⟨trivial, rfl, nofun⟩, nofun, TimerSystem.notEarly_init start⟩
    · intro x a y hx hok hstep
      obtain ⟨hclock, hnote⟩ := withHistory_eq_some.mp hstep
      obtain ⟨hmoved, hread⟩ := withHistory_eq_some.mp hclock
      rw [hnote, hread]
      exact hx.step hok hmoved
  refine hclocked.notEarly.granted k call id now made i first ?_
  have hgranted := s.1.started_add_onTheWay k
  omega

/-- A periodic timer of five milliseconds expires twice, half a millisecond early each time. -/
def periodicTwice : List TimerAction :=
  .flatten [[.start], runCall 0 (.runAfter 5 true) 0,
    expiry ⟨5000000, 0, 0, 0, true, false, 5⟩ 4500000, .replicate 9 (.worker 0),
    expiry ⟨9500000, 0, 0, 0, true, false, 5⟩ 9000000, .replicate 7 (.worker 0)]

/-- The second execution has started nine milliseconds after the call. -/
theorem periodic_twice_not_early :
    ∃ s, run (withHistory TimerSystem.step TimerSystem.readClock) (.init, 0) periodicTwice =
        some s ∧ s.1.started 0 = 2 ∧ (RunCall.runAfter 5 true).earliest 0 2 ≤ s.2 := by
  have hrun : (run (withHistory TimerSystem.step TimerSystem.readClock) (.init, 0)
      periodicTwice).isSome := by decide +kernel
  have hend : ∀ s ∈ run (withHistory TimerSystem.step TimerSystem.readClock) (.init, 0)
      periodicTwice, s.1.started 0 = 2 ∧
        (s.1.calls 0).made? = some (.runAfter 5 true, (RunCall.runAfter 5 true).node 0 0 0) := by
    decide +kernel
  obtain ⟨s, hs⟩ := Option.isSome_iff_exists.mp hrun
  obtain ⟨htwice, hmade⟩ := hend s hs
  exact ⟨s, hs, htwice, timers_never_early (reachBy_of_run hs (by decide +kernel)) hmade
    (by decide) htwice.ge⟩

end ConcurrentServer.Timer
