import ConcurrentServer.Timer.Nodes
import Mathlib.Data.Finset.Card
import Mathlib.Data.Finset.Dedup

/-!
# The owners of the keys

`src/timer/timer.h:60–158`, `src/timer/hash_map.h:12–27`. A run call enters its id into the table
before it pushes the node, and from then on the node stands for the key. Only `cancel` erases keys:
a node that has expired and is not pushed again leaves its key behind.
-/

namespace ConcurrentServer.Timer
open ConcurrentServer.Base

/-- The id of a call that has entered it and not pushed its node yet. -/
def RunPc.toPush? : RunPc → Option Int
  | .lock _ n | .push _ n => some n.tnId
  | .idle | .fetchAdd _ | .emplace _ _ | .notify _ _ | .unlock _ _ | .returned _ _ => none

/-- The call has been made and has not returned. -/
def RunPc.inProgress : RunPc → Bool
  | .idle | .returned _ _ => false
  | .fetchAdd _ | .emplace _ _ | .lock _ _ | .push _ _ | .notify _ _ | .unlock _ _ => true

namespace TimerSystem

/-- A node, or a call that is about to push one, stands for the id. -/
def Owner (s : TimerSystem) (id : Int) : Prop :=
  (∃ n ∈ s.nodes, n.tnId = id) ∨ ∃ k, (s.calls k).toPush? = some id

/-- Every key has an owner. -/
def Owned (s : TimerSystem) : Prop :=
  ∀ id, s.tmIdStateMap.isKeyExist id = true → s.Owner id

/-- A node in the tick thread's hands that has expired is pushed again, or its id has been
cancelled meanwhile, or another node or call stands for the id too. -/
def KeepsOwner (s : TimerSystem) (a : TimerAction) : Prop :=
  ∀ now n late, a = .tick now → s.tick = .rearm n late →
    (n.rearmed now).isSome = true ∨ s.tmIdStateMap.isKeyExist n.tnId = false ∨
      (∃ n' ∈ s.tmQueue, n'.tnId = n.tnId) ∨ ∃ k, (s.calls k).toPush? = some n.tnId

variable {s t : TimerSystem} {a : TimerAction}

/-- Before the first step. -/
theorem owned_init : init.Owned := by
  intro id h
  cases h

/-- The keys are owned as long as there are no new keys and the owners are kept. -/
theorem Owned.congr (h : s.Owned)
    (keys : ∀ id, t.tmIdStateMap.isKeyExist id = true → s.tmIdStateMap.isKeyExist id = true)
    (nodes : ∀ n ∈ s.nodes, n ∈ t.nodes)
    (calls : ∀ k, (t.calls k).toPush? = (s.calls k).toPush?) : t.Owned := by
  intro id hkey
  cases h id (keys id hkey) with
  | inl hnode =>
    obtain ⟨n, hn, hid⟩ := hnode
    exact Or.inl ⟨n, nodes n hn, hid⟩
  | inr hcall =>
    obtain ⟨k, hk⟩ := hcall
    exact Or.inr ⟨k, by rw [calls, hk]⟩

/-- A call moves on without a change of what it is about to push. -/
theorem Owned.move (h : s.Owned) {k : Nat} {pc : RunPc}
    (calls : t.calls = Function.update s.calls k pc) (same : pc.toPush? = (s.calls k).toPush?)
    (tmIdStateMap : t.tmIdStateMap = s.tmIdStateMap) (nodes : t.nodes = s.nodes) : t.Owned := by
  apply h.congr
  · rw [tmIdStateMap]
    exact fun _ hkey ↦ hkey
  · rw [nodes]
    exact fun _ hn ↦ hn
  · rw [calls]
    exact apply_update_of_same RunPc.toPush? same

/-- A call enters its id. -/
theorem Owned.emplace (h : s.Owned) {k : Nat} {call : RunCall} {id now : Int}
    (at_ : s.calls k = .emplace call id)
    (calls : t.calls = Function.update s.calls k (.lock call (call.node k id now)))
    (tmIdStateMap : t.tmIdStateMap = s.tmIdStateMap.emplace id .running)
    (nodes : t.nodes = s.nodes) : t.Owned := by
  have hself : (t.calls k).toPush? = some id := by
    rw [calls, Function.update_self]
    exact congrArg some (tnId_node ..)
  intro id' hkey
  rw [tmIdStateMap, HashMap.isKeyExist_emplace, Bool.or_eq_true, decide_eq_true_eq] at hkey
  cases hkey with
  | inl hnew => exact Or.inr ⟨k, by rw [hnew, hself]⟩
  | inr hold =>
    cases h id' hold with
    | inl hnode =>
      left
      rwa [nodes]
    | inr hcall =>
      obtain ⟨k', hk'⟩ := hcall
      refine Or.inr ⟨k', ?_⟩
      rw [calls]
      apply apply_update_of_keeps hk'
      intro hpush
      rw [at_] at hpush
      cases hpush

/-- A call pushes its node. -/
theorem Owned.push (h : s.Owned) {k : Nat} {call : RunCall} {n : TimerNode}
    (at_ : s.calls k = .push call n)
    (calls : t.calls = Function.update s.calls k (.notify call n))
    (tmIdStateMap : t.tmIdStateMap = s.tmIdStateMap) (tick : t.tick = s.tick)
    (tmQueue : t.tmQueue = n :: s.tmQueue) : t.Owned := by
  intro id hkey
  rw [tmIdStateMap] at hkey
  cases h id hkey with
  | inl hnode =>
    obtain ⟨n', hn', hid⟩ := hnode
    refine Or.inl ⟨n', ?_, hid⟩
    rw [mem_nodes, tick, tmQueue, List.mem_cons]
    exact (mem_nodes.mp hn').imp_right Or.inr
  | inr hcall =>
    obtain ⟨k', hk'⟩ := hcall
    by_cases hself : k' = k
    · rw [hself, at_] at hk'
      refine Or.inl ⟨n, ?_, Option.some.inj hk'⟩
      rw [mem_nodes, tmQueue]
      exact Or.inr List.mem_cons_self
    · refine Or.inr ⟨k', ?_⟩
      rw [calls, Function.update_of_ne hself]
      exact hk'

/-- The tick thread drops a node whose id is not in the table. -/
theorem Owned.drop (h : s.Owned) {n : TimerNode} {late : Bool} (at_ : s.tick = .isKeyExist n late)
    (key : s.tmIdStateMap.isKeyExist n.tnId = false) (calls : t.calls = s.calls)
    (tmIdStateMap : t.tmIdStateMap = s.tmIdStateMap) (tmQueue : t.tmQueue = s.tmQueue) :
    t.Owned := by
  intro id hkey
  rw [tmIdStateMap] at hkey
  cases h id hkey with
  | inl hnode =>
    obtain ⟨n', hn', hid⟩ := hnode
    refine Or.inl ⟨n', ?_, hid⟩
    rw [mem_nodes, tmQueue]
    cases mem_nodes.mp hn' with
    | inl hhand =>
      rw [at_] at hhand
      rw [← hid, List.mem_singleton.mp hhand, key] at hkey
      cases hkey
    | inr hqueue => exact Or.inr hqueue
  | inr hcall =>
    right
    rwa [calls]

/-- The tick thread pushes the node in hand again or not. -/
theorem Owned.rearm_iff (h : s.Owned) {n : TimerNode} {late : Bool} {now : Int}
    (at_ : s.tick = .rearm n late) (calls : t.calls = s.calls)
    (tmIdStateMap : t.tmIdStateMap = s.tmIdStateMap)
    (tick : t.tick = .unlock n.tnCallback late)
    (tmQueue : t.tmQueue = (n.rearmed now).toList ++ s.tmQueue) :
    t.Owned ↔ (n.rearmed now).isSome = true ∨ s.tmIdStateMap.isKeyExist n.tnId = false ∨
      (∃ n' ∈ s.tmQueue, n'.tnId = n.tnId) ∨ ∃ k, (s.calls k).toPush? = some n.tnId := by
  have hnodes (n' : TimerNode) : n' ∈ t.nodes ↔ n.rearmed now = some n' ∨ n' ∈ s.tmQueue := by
    rw [mem_nodes, tick, tmQueue, List.mem_append, Option.mem_toList]
    exact or_iff_right List.not_mem_nil
  constructor
  · intro howned
    cases hkey : s.tmIdStateMap.isKeyExist n.tnId with
    | false => exact Or.inr (Or.inl rfl)
    | true =>
      rw [← tmIdStateMap] at hkey
      cases howned n.tnId hkey with
      | inl hnode =>
        obtain ⟨n', hn', hid⟩ := hnode
        cases (hnodes n').mp hn' with
        | inl hagain => exact Or.inl (by rw [hagain]; rfl)
        | inr hqueue => exact Or.inr (Or.inr (Or.inl ⟨n', hqueue, hid⟩))
      | inr hcall =>
        rw [calls] at hcall
        exact Or.inr (Or.inr (Or.inr hcall))
  · intro hcond id hkey
    rw [tmIdStateMap] at hkey
    cases h id hkey with
    | inl hnode =>
      obtain ⟨n', hn', hid⟩ := hnode
      rw [mem_nodes, at_] at hn'
      cases hn' with
      | inl hhand =>
        -- The node in hand was the owner: the condition names the next one.
        rw [← hid, List.mem_singleton.mp hhand] at hkey ⊢
        rcases hcond with hagain | hcancelled | ⟨n', hqueue, hsame⟩ | ⟨k, hk⟩
        · obtain ⟨n', hn'⟩ := Option.isSome_iff_exists.mp hagain
          exact Or.inl ⟨n', (hnodes n').mpr (Or.inl hn'), tnId_rearmed hn'⟩
        · rw [hcancelled] at hkey
          cases hkey
        · exact Or.inl ⟨n', (hnodes n').mpr (Or.inr hqueue), hsame⟩
        · exact Or.inr ⟨k, by rw [calls, hk]⟩
      | inr hqueue => exact Or.inl ⟨n', (hnodes n').mpr (Or.inr hqueue), hid⟩
    | inr hcall =>
      right
      rwa [calls]

/-- Every step under the condition. -/
theorem Owned.step (h : s.Owned) (hk : s.Kept) (hok : s.KeepsOwner a) (hstep : Step s a t) :
    t.Owned := by
  cases hstep with
  | run k call at_ | fetchAdd k now call at_ | lockCall k now call n at_ free
  | unlockCall k now call n at_ => exact h.move rfl (by rw [at_]; rfl) rfl rfl
  | emplace k now call id at_ => exact h.emplace at_ rfl rfl rfl
  | push k now call n at_ => exact h.push at_ rfl rfl rfl rfl
  | notifyCall k now call n at_ =>
    have hmove : (s.setCall k (.unlock call n)).Owned := h.move rfl (by rw [at_]; rfl) rfl rfl
    apply hmove.congr
    · exact fun _ hkey ↦ hkey
    · intro n' hn'
      rw [mem_nodes] at hn' ⊢
      rwa [show _ = s.tick.inHand from inHand_notified s.tick]
    · exact fun _ ↦ rfl
  | cancelErase c id known at_ =>
    apply h.congr
    · intro id' hkey
      have herase : (s.tmIdStateMap.erase id).isKeyExist id' = true := hkey
      rw [HashMap.isKeyExist_erase, Bool.and_eq_true] at herase
      exact herase.2
    · exact fun _ hn ↦ hn
    · exact fun _ ↦ rfl
  | tickMove a pc holder move =>
    apply h.congr
    · exact fun _ hkey ↦ hkey
    · intro n hn
      rw [mem_nodes] at hn ⊢
      rwa [show (s.setTick pc holder).tick.inHand = _ from move.keeps.1]
    · exact fun _ ↦ rfl
  | pop now n at_ =>
    apply h.congr
    · exact fun _ hkey ↦ hkey
    · intro n' hn'
      have hqueue : n' ∈ s.tmQueue := by
        rw [mem_nodes, at_] at hn'
        exact hn'.resolve_left List.not_mem_nil
      exact List.mem_cons.mpr ((List.mem_cons.mp
        ((List.perm_cons_erase (hk.popped n at_)).mem_iff.mp hqueue)))
    · exact fun _ ↦ rfl
  | drop now n late at_ key => exact h.drop at_ key rfl rfl rfl
  | rearm now n late at_ =>
    refine Iff.mpr (h.rearm_iff at_ ?_ ?_ ?_ ?_) (hok now n late rfl at_)
    · rfl
    · rfl
    · rfl
    · rfl
  | postTask now callback late pool at_ emplaced | notify who pool at_ notified =>
    apply h.congr
    · exact fun _ hkey ↦ hkey
    · intro n hn
      rw [mem_nodes, at_] at hn
      exact List.mem_append_right _ (hn.resolve_left List.not_mem_nil)
    · exact fun _ ↦ rfl
  | notifyTick a pc =>
    apply h.congr
    · exact fun _ hkey ↦ hkey
    · intro n hn
      rw [mem_nodes] at hn ⊢
      rwa [show _ = s.tick.inHand from inHand_notified s.tick]
    · exact fun _ ↦ rfl
  | cancel | cancelTest | cancelRet | worker | destructor | destroyPool =>
    exact h.congr (fun _ hkey ↦ hkey) (fun _ hn ↦ hn) (fun _ ↦ rfl)

/-- A step leaves every key with an owner exactly when it meets the condition. -/
theorem Owned.step_iff (h : s.Owned) (hk : s.Kept) (hstep : s.step a = some t) :
    t.Owned ↔ s.KeepsOwner a := by
  constructor
  · rintro howned now n late rfl at_
    have hmoved : s.tickStep now = some t := (Option.ite_none_left_eq_some.mp hstep).2
    simp only [tickStep, at_] at hmoved
    cases hmoved
    refine Iff.mp (h.rearm_iff at_ ?_ ?_ ?_ ?_) howned
    · rfl
    · rfl
    · rfl
    · rfl
  · intro hok
    exact h.step hk hok (step_inversion hstep)

/-- No run call is in progress, and `tm_mutex` is free. -/
def AtRest (s : TimerSystem) : Prop :=
  s.tmMutex = none ∧ ∀ k, (s.calls k).inProgress = false

/-- Every key is the id of a node in the queue, and there are no more keys than nodes. -/
def Tracks (s : TimerSystem) : Prop :=
  (∀ id, s.tmIdStateMap.isKeyExist id = true → ∃ n ∈ s.tmQueue, n.tnId = id) ∧
    ∃ keys : Finset Int, (∀ id, s.tmIdStateMap.isKeyExist id = true ↔ id ∈ keys) ∧
      keys.card ≤ s.tmQueue.length

/-- Without a call at work and a node in hand, every key is the id of a node in the queue. -/
theorem Owned.pending (h : s.Owned) (he : s.Exclusive) (rest : s.AtRest) {id : Int}
    (hkey : s.tmIdStateMap.isKeyExist id = true) : ∃ n ∈ s.tmQueue, n.tnId = id := by
  cases h id hkey with
  | inl hnode =>
    obtain ⟨n, hn, hid⟩ := hnode
    refine ⟨n, ?_, hid⟩
    cases mem_nodes.mp hn with
    | inl hhand =>
      have held : s.tick.holds = true := by
        cases hpc : s.tick with
        | isKeyExist | rearm => rfl
        | _ =>
          rw [hpc] at hhand
          cases hhand
      have hmutex := he.tick held
      rw [rest.1] at hmutex
      cases hmutex
    | inr hqueue => exact hqueue
  | inr hcall =>
    obtain ⟨k, hk⟩ := hcall
    have hidle := rest.2 k
    cases hpc : s.calls k with
    | lock | push =>
      rw [hpc] at hidle
      cases hidle
    | _ =>
      rw [hpc] at hk
      cases hk

/-- The keys are no more than the nodes in the queue. -/
theorem exists_keys (h : ∀ id, s.tmIdStateMap.isKeyExist id = true → ∃ n ∈ s.tmQueue, n.tnId = id) :
    ∃ keys : Finset Int, (∀ id, s.tmIdStateMap.isKeyExist id = true ↔ id ∈ keys) ∧
      keys.card ≤ s.tmQueue.length := by
  refine ⟨(s.tmQueue.map TimerNode.tnId).toFinset.filter
    (fun id ↦ s.tmIdStateMap.isKeyExist id = true), ?_, ?_⟩
  · intro id
    rw [Finset.mem_filter, List.mem_toFinset, List.mem_map]
    exact (and_iff_right_of_imp (h id)).symm
  · have hfilter := Finset.card_filter_le (s.tmQueue.map TimerNode.tnId).toFinset
      (fun id ↦ s.tmIdStateMap.isKeyExist id = true)
    have hlength := List.toFinset_card_le (s.tmQueue.map TimerNode.tnId)
    rw [List.length_map] at hlength
    exact hfilter.trans hlength

/-! ### Calls that have not been made -/

/-- The call that the action makes. -/
def made? : TimerAction → Option Nat
  | .run k _ => some k
  | _ => none

/-- Nothing else moves a call that has not been made. -/
theorem Step.idle (hstep : Step s a t) {k : Nat} (hidle : s.calls k = .idle)
    (hother : made? a ≠ some k) : t.calls k = .idle := by
  have keep {k' : Nat} {pc : RunPc} (hne : k ≠ k') : Function.update s.calls k' pc k = .idle := by
    rw [Function.update_of_ne hne]
    exact hidle
  cases hstep with
  | run k' call at_ =>
    apply keep
    rintro rfl
    exact hother rfl
  | fetchAdd k' now call at_ | emplace k' now call id at_ | lockCall k' now call n at_ free
  | push k' now call n at_ | notifyCall k' now call n at_ | unlockCall k' now call n at_ =>
    apply keep
    rintro rfl
    rw [hidle] at at_
    cases at_
  | _ => exact hidle

/-- A call that a run does not make is not made. -/
theorem idle_of_run {as : List TimerAction} {k : Nat} (hrun : run TimerSystem.step s as = some t)
    (hidle : s.calls k = .idle) (hother : ∀ a ∈ as, made? a ≠ some k) : t.calls k = .idle := by
  induction as generalizing s with
  | nil =>
    cases hrun
    exact hidle
  | cons a as ih =>
    obtain ⟨u, hstep, hrest⟩ := Option.bind_eq_some_iff.mp hrun
    apply ih hrest
    · exact (step_inversion hstep).idle hidle (hother a List.mem_cons_self)
    · exact fun a' ha' ↦ hother a' (List.mem_cons_of_mem a ha')

/-- A run that makes the first `m` calls only leaves the timer at rest if they have returned. -/
theorem atRest_of_run {as : List TimerAction} {m : Nat}
    (hrun : run TimerSystem.step .init as = some t)
    (hmade : ∀ a ∈ as, ∀ k ∈ made? a, k < m) (free : t.tmMutex = none)
    (hreturned : ∀ k < m, (t.calls k).inProgress = false) : t.AtRest := by
  refine ⟨free, ?_⟩
  intro k
  by_cases hk : k < m
  · exact hreturned k hk
  · rw [idle_of_run hrun rfl]
    · rfl
    · intro a ha hself
      exact hk (hmade a ha k hself)

end TimerSystem

/-- In every run in which no node expires for the last time with its id still in the table, whenever
no run call is in progress and `tm_mutex` is free, every key is the id of a node in the queue, and
there are no more keys than nodes. The next step leaves every key with an owner exactly when it
meets the condition. -/
theorem id_table_tracks_queue {s : TimerSystem}
    (h : ReachBy TimerSystem.step TimerSystem.KeepsOwner .init s) :
    (s.AtRest → s.Tracks) ∧
      ∀ a t, s.step a = some t → (t.Owned ↔ s.KeepsOwner a) := by
  have hinv : s.Sound ∧ s.Owned := by
    apply h.invariant ⟨TimerSystem.sound_init, TimerSystem.owned_init⟩
    rintro s a t ⟨hsound, howned⟩ hok hstep
    exact ⟨hsound.step (TimerSystem.step_inversion hstep),
      (howned.step_iff hsound.kept hstep).mpr hok⟩
  obtain ⟨hsound, howned⟩ := hinv
  refine ⟨?_, fun a t hstep ↦ howned.step_iff hsound.kept hstep⟩
  intro rest
  have hpending : ∀ id, s.tmIdStateMap.isKeyExist id = true → ∃ n ∈ s.tmQueue, n.tnId = id :=
    fun id hkey ↦ howned.pending hsound.exclusive rest hkey
  exact ⟨hpending, TimerSystem.exists_keys hpending⟩

/-- A node that has expired is pushed again. -/
def RearmsNow (s : TimerSystem) (a : TimerAction) : Prop :=
  match a, s.tick with
  | .tick now, .rearm n _ => (n.rearmed now).isSome = true
  | _, _ => True

instance (s : TimerSystem) (a : TimerAction) : Decidable (RearmsNow s a) := by
  unfold RearmsNow
  split
  · exact inferInstance
  · exact inferInstance

/-- A one-shot timer is cancelled and dropped, a periodic one expires. -/
def cancelledAndPeriodic : List TimerAction :=
  .flatten [[.start], runCall 0 (.runAfter 1 true) 0, runCall 1 (.runAfter 0 false) 0,
    [.cancel 0 1, .cancelStep 0, .cancelStep 0, .cancelStep 0, .tick 0, .tick 0, .tick 0,
      .tickTop ⟨0, 1, 1, 0, false, false, 0⟩ 0, .tick 0, .tick 0],
    expiry ⟨1000000, 0, 0, 0, true, false, 1⟩ 1000000]

/-- The table has the key of the periodic timer only. -/
theorem tracks_after_cancelled_and_periodic :
    ∃ s, run TimerSystem.step .init cancelledAndPeriodic = some s ∧ s.Tracks := by
  have hrun : (run TimerSystem.step .init cancelledAndPeriodic).isSome := by decide +kernel
  have hend : ∀ t ∈ run TimerSystem.step .init cancelledAndPeriodic,
      t.tmMutex = none ∧ ∀ k < 2, (t.calls k).inProgress = false := by
    decide +kernel
  have hok : Admits TimerSystem.step RearmsNow .init cancelledAndPeriodic := by decide +kernel
  have hweaken : ∀ s a, RearmsNow s a → s.KeepsOwner a := by
    rintro s a hrearms now n late rfl at_
    unfold RearmsNow at hrearms
    simp only [at_] at hrearms
    exact Or.inl hrearms
  obtain ⟨s, hs⟩ := Option.isSome_iff_exists.mp hrun
  obtain ⟨free, hreturned⟩ := hend s hs
  have hrest := TimerSystem.atRest_of_run hs (by decide +kernel) free hreturned
  exact ⟨s, hs, (id_table_tracks_queue (reachBy_of_run hs (hok.weaken hweaken))).1 hrest⟩

/-- A one-shot timer expires, and its key stays. -/
theorem expired_key_stays :
    ¬ ∀ s, Reach TimerSystem.step .init s → s.AtRest → s.Tracks := by
  intro h
  have hrun : (run TimerSystem.step .init (.flatten [[.start], runCall 0 (.runAfter 0 false) 0,
      expiry ⟨0, 0, 0, 0, false, false, 0⟩ 0])).isSome := by decide +kernel
  have hend : ∀ t ∈ run TimerSystem.step .init (.flatten [[.start],
      runCall 0 (.runAfter 0 false) 0, expiry ⟨0, 0, 0, 0, false, false, 0⟩ 0]),
      t.tmMutex = none ∧ (∀ k < 1, (t.calls k).inProgress = false) ∧ t.tmQueue = [] ∧
        t.tmIdStateMap.isKeyExist 0 = true := by
    decide +kernel
  obtain ⟨s, hs⟩ := Option.isSome_iff_exists.mp hrun
  obtain ⟨free, hreturned, hempty, hkey⟩ := hend s hs
  have hrest := TimerSystem.atRest_of_run hs (by decide +kernel) free hreturned
  obtain ⟨n, hn, -⟩ := (h s (reach_of_run hs) hrest).1 0 hkey
  rw [hempty] at hn
  cases hn

end ConcurrentServer.Timer
