import ConcurrentServer.Timer.Nodes

/-!
# Ids after a wrap-around

`src/timer/timer.h:60–121, 160–168`. `tm_id` has 32 bits, so the id of a timer is the number of
timers made before it, modulo 2³². Beside the run stand these numbers. Two timers in the queue have
one id as soon as a node is pushed while one is pending that was made a multiple of 2³² timers
earlier.
-/

namespace ConcurrentServer.Timer
open ConcurrentServer.Base

namespace TimerSystem

/-- The numbers of the calls: how many timers had been made when they got their ids. -/
def noteNumber (s : TimerSystem) (a : TimerAction) (_ : TimerSystem) (g : Nat → Option Nat) :
    Nat → Option Nat := fun k ↦
  match a, s.calls k with
  | .runStep k' _, .fetchAdd _ => if k = k' then some s.tmCount else g k
  | _, _ => g k

/-- A call that pushes its node finds none in the queue whose timer was made a multiple of 2³²
timers earlier or later. -/
def FreshId (p : TimerSystem × (Nat → Option Nat)) (a : TimerAction) : Prop :=
  match a with
  | .runStep k _ =>
    match p.1.calls k with
    | .push _ _ => ∀ n ∈ p.1.tmQueue,
      (p.2 n.tnCallback).map (· % 4294967296) ≠ (p.2 k).map (· % 4294967296)
    | _ => True
  | _ => True

instance (p : TimerSystem × (Nat → Option Nat)) (a : TimerAction) : Decidable (FreshId p a) := by
  unfold FreshId
  split
  · split
    · exact inferInstance
    · exact inferInstance
  · exact inferInstance

/-- Two timers in the queue have different ids, and cancelling one leaves the key of the other. -/
def Apart (s : TimerSystem) : Prop :=
  ∀ n ∈ s.tmQueue, ∀ n' ∈ s.tmQueue, n.tnCallback ≠ n'.tnCallback →
    n.tnId ≠ n'.tnId ∧
      ∀ c t, (s.cancels c).id? = some n.tnId → s.step (.cancelStep c) = some t →
        t.tmIdStateMap.isKeyExist n'.tnId = s.tmIdStateMap.isKeyExist n'.tnId

variable {s t : TimerSystem} {a : TimerAction} {g : Nat → Option Nat}

/-! ### Numbers and ids -/

/-- The id of a call is the value of the counter at its number. -/
def Noted (s : TimerSystem) (g : Nat → Option Nat) : Prop :=
  ∀ k id, (s.calls k).id? = some id → ∃ i, g k = some i ∧ id = counter32 i

/-- The number of a call that has its id is not changed. -/
theorem noteNumber_of_id {k : Nat} {id : Int} (h : (s.calls k).id? = some id) :
    noteNumber s a t g k = g k := by
  unfold noteNumber
  split
  · next at_ =>
    rw [at_] at h
    cases h
  · rfl

/-- The ids and numbers fit as long as no call gets an id. -/
theorem Noted.note (h : s.Noted g) (ids : ∀ k, (t.calls k).id? = (s.calls k).id?) :
    t.Noted (noteNumber s a t g) := by
  intro k id hk
  rw [ids] at hk
  rw [noteNumber_of_id hk]
  exact h k id hk

/-- A call gets its id. -/
theorem Noted.fetchAdd (h : s.Noted g) {k : Nat} {call : RunCall} {now : Int}
    (at_ : s.calls k = .fetchAdd call)
    (calls : t.calls = Function.update s.calls k (.emplace call (counter32 s.tmCount))) :
    t.Noted (noteNumber s (.runStep k now) t g) := by
  intro k' id hk'
  rw [calls] at hk'
  by_cases hself : k' = k
  · rw [hself, Function.update_self] at hk'
    refine ⟨s.tmCount, ?_, (Option.some.inj hk').symm⟩
    unfold noteNumber
    simp only [hself, at_, if_true]
  · rw [Function.update_of_ne hself] at hk'
    rw [noteNumber_of_id hk']
    exact h k' id hk'

/-- Every step. -/
theorem Noted.step (h : s.Noted g) (hstep : Step s a t) : t.Noted (noteNumber s a t g) := by
  cases hstep with
  | fetchAdd k now call at_ => exact h.fetchAdd at_ rfl
  | run k call at_ | lockCall k now call n at_ free | push k now call n at_
  | notifyCall k now call n at_ | unlockCall k now call n at_ =>
    exact h.note (apply_update_of_same RunPc.id? (by rw [at_]; rfl))
  | emplace k now call id at_ =>
    exact h.note (apply_update_of_same RunPc.id? (by rw [at_]; exact congrArg some (tnId_node ..)))
  | _ => exact h.note (fun _ ↦ rfl)

/-- The id of a node is the counter at the number of its call. -/
theorem Noted.tnId (h : s.Noted g) (hk : s.Kept) {n : TimerNode} (hn : n ∈ s.nodes) :
    ∃ i, g n.tnCallback = some i ∧ n.tnId = counter32 i := by
  obtain ⟨call, m, hpushed, hid, -⟩ := hk.of_mem hn
  obtain ⟨i, hi, heq⟩ := h _ _ (id?_of_entered? (entered?_of_pushed? hpushed))
  exact ⟨i, hi, hid.trans heq⟩

/-- Two counters are the same if their numbers are, modulo 2³². -/
theorem counter32_eq_iff_map {i j : Nat} {x y : Option Nat} (hx : x = some i) (hy : y = some j) :
    counter32 i = counter32 j ↔ x.map (· % 4294967296) = y.map (· % 4294967296) := by
  rw [hx, hy, counter32_eq_iff, Option.map_some, Option.map_some, Option.some.injEq]

/-! ### Nodes with different ids -/

/-- Nodes of different timers, in the queue or in the tick thread's hands, have different ids. -/
def Distinct (s : TimerSystem) : Prop :=
  ∀ n ∈ s.nodes, ∀ n' ∈ s.nodes, n.tnCallback ≠ n'.tnCallback → n.tnId ≠ n'.tnId

/-- While a call holds `tm_mutex`, nothing is in the tick thread's hands. -/
theorem Exclusive.nodes_eq (h : s.Exclusive) {k : Nat} (held : (s.calls k).holds = true) :
    s.nodes = s.tmQueue := by
  have hfree := h.not_tick held
  unfold nodes
  cases hpc : s.tick with
  | isKeyExist | rearm =>
    rw [hpc] at hfree
    cases hfree
  | _ => rfl

/-- The nodes stay apart as long as there are no new ones. -/
theorem Distinct.congr (h : s.Distinct)
    (nodes : ∀ n ∈ t.nodes, ∃ n' ∈ s.nodes, n'.tnCallback = n.tnCallback ∧ n'.tnId = n.tnId) :
    t.Distinct := by
  intro n hn n' hn' hne
  obtain ⟨m, hm, hcallback, hid⟩ := nodes n hn
  obtain ⟨m', hm', hcallback', hid'⟩ := nodes n' hn'
  rw [← hid, ← hid']
  apply h m hm m' hm'
  rw [hcallback, hcallback']
  exact hne

/-- A node is pushed whose id no node of another timer has. -/
theorem Distinct.push (h : s.Distinct) {n : TimerNode}
    (nodes : ∀ n' ∈ t.nodes, n' = n ∨ n' ∈ s.nodes)
    (fresh : ∀ n' ∈ s.nodes, n'.tnId ≠ n.tnId) : t.Distinct := by
  intro x hx y hy hne
  rcases nodes x hx with rfl | hx'
  · rcases nodes y hy with rfl | hy'
    · exact absurd rfl hne
    · exact (fresh y hy').symm
  · rcases nodes y hy with rfl | hy'
    · exact fresh x hx'
    · exact h x hx' y hy' hne

/-- Erasing an id leaves the other keys. -/
theorem isKeyExist_cancelStep {c : Nat} {id id' : Int} (hid : (s.cancels c).id? = some id)
    (hne : id ≠ id') (hstep : s.step (.cancelStep c) = some t) :
    t.tmIdStateMap.isKeyExist id' = s.tmIdStateMap.isKeyExist id' := by
  have hmoved : s.cancelStep c = some t := (Option.ite_none_left_eq_some.mp hstep).2
  unfold cancelStep at hmoved
  split at hmoved
  · cases hmoved
    rfl
  · next id'' known at_ =>
    rw [at_] at hid
    cases hid
    cases hmoved
    show (s.tmIdStateMap.erase id).isKeyExist id' = _
    rw [HashMap.isKeyExist_erase, decide_eq_true hne.symm, Bool.true_and]
  · cases hmoved
    rfl
  · cases hmoved
  · cases hmoved

/-- Different ids in the queue keep the timers apart. -/
theorem Distinct.apart (h : s.Distinct) : s.Apart := by
  intro n hn n' hn' hne
  have hids := h n (mem_nodes.mpr (Or.inr hn)) n' (mem_nodes.mpr (Or.inr hn')) hne
  exact ⟨hids, fun c t hid hstep ↦ isKeyExist_cancelStep hid hids hstep⟩

/-- The node of a call that is about to push it. -/
structure Pushing (s : TimerSystem) (g : Nat → Option Nat) (k : Nat) (n : TimerNode) : Prop where
  callback : n.tnCallback = k
  number : ∃ i, g k = some i ∧ n.tnId = counter32 i
  nodes : s.nodes = s.tmQueue
  others : ∀ n' ∈ s.tmQueue, n'.tnCallback ≠ k

/-- A call about to push has its number, and no other node. -/
theorem Sound.pushing (hs : s.Sound) (hn : s.Noted g) {k : Nat} {call : RunCall} {n : TimerNode}
    (at_ : s.calls k = .push call n) : s.Pushing g k n := by
  have hnodes := hs.exclusive.nodes_eq (k := k) (by rw [at_]; rfl)
  constructor
  · obtain ⟨id, now, hmade⟩ := hs.kept.made k call n (by rw [at_]; rfl)
    rw [hmade]
    cases call <;> rfl
  · exact hn k n.tnId (by rw [at_]; rfl)
  · exact hnodes
  · rintro n' hn' rfl
    rw [← hnodes] at hn'
    obtain ⟨call', m, hpushed, -⟩ := hs.kept.of_mem hn'
    rw [at_] at hpushed
    cases hpushed

/-- The condition, at a push. -/
theorem freshId_push_iff {k : Nat} {now : Int} {call : RunCall} {n : TimerNode} (hs : s.Sound)
    (hn : s.Noted g) (at_ : s.calls k = .push call n) :
    FreshId (s, g) (.runStep k now) ↔ ∀ n' ∈ s.tmQueue, n'.tnId ≠ n.tnId := by
  have hpushing := hs.pushing hn at_
  obtain ⟨i, hi, hid⟩ := hpushing.number
  have heq : ∀ n' ∈ s.tmQueue, n'.tnId = n.tnId ↔
      (g n'.tnCallback).map (· % 4294967296) = (g k).map (· % 4294967296) := by
    intro n' hn'
    rw [← hpushing.nodes] at hn'
    obtain ⟨j, hj, hid'⟩ := hn.tnId hs.kept hn'
    rw [hid, hid']
    exact counter32_eq_iff_map hj hi
  unfold FreshId
  simp only [at_]
  constructor
  · intro hfresh n' hn' hsame
    exact hfresh n' hn' ((heq n' hn').mp hsame)
  · intro hdistinct n' hn' hsame
    exact hdistinct n' hn' ((heq n' hn').mpr hsame)

/-- Every step under the condition. -/
theorem Distinct.step (h : s.Distinct) (hs : s.Sound) (hn : s.Noted g) (hok : FreshId (s, g) a)
    (hstep : Step s a t) : t.Distinct := by
  have same {u : TimerSystem} (nodes : u.nodes = s.nodes) : u.Distinct := by
    apply h.congr
    rw [nodes]
    exact fun n hn ↦ ⟨n, hn, rfl, rfl⟩
  cases hstep with
  | push k now call n at_ =>
    have hpushing := hs.pushing hn at_
    apply h.push (n := n)
    · intro n' hn'
      rw [hpushing.nodes]
      cases mem_nodes.mp hn' with
      | inl hhand =>
        right
        rw [← hpushing.nodes]
        exact mem_nodes.mpr (Or.inl hhand)
      | inr hqueue => exact List.mem_cons.mp hqueue
    · rw [hpushing.nodes]
      exact (freshId_push_iff hs hn at_).mp hok
  | notifyCall k now call n at_ =>
    apply same
    unfold nodes
    rw [show _ = s.tick.inHand from inHand_notified s.tick]
    rfl
  | notifyTick a pc =>
    apply same
    unfold nodes
    rw [show _ = s.tick.inHand from inHand_notified s.tick]
  | tickMove a pc holder move =>
    apply same
    unfold nodes
    rw [show (s.setTick pc holder).tick.inHand = _ from move.keeps.1]
    rfl
  | pop now n at_ =>
    apply h.congr
    intro n' hn'
    refine ⟨n', ?_, rfl, rfl⟩
    rw [mem_nodes, at_]
    right
    cases mem_nodes.mp hn' with
    | inl hhand =>
      rw [List.mem_singleton.mp hhand]
      exact hs.kept.popped n at_
    | inr hqueue => exact List.mem_of_mem_erase hqueue
  | drop now n late at_ key =>
    apply h.congr
    intro n' hn'
    exact ⟨n', mem_nodes.mpr (Or.inr ((mem_nodes.mp hn').resolve_left List.not_mem_nil)), rfl, rfl⟩
  | rearm now n late at_ =>
    apply h.congr
    intro n' hn'
    have hqueue : n' ∈ (n.rearmed now).toList ++ s.tmQueue :=
      (mem_nodes.mp hn').resolve_left List.not_mem_nil
    rw [List.mem_append, Option.mem_toList] at hqueue
    cases hqueue with
    | inl hagain =>
      refine ⟨n, ?_, (tnCallback_rearmed hagain).symm, (tnId_rearmed hagain).symm⟩
      rw [mem_nodes, at_]
      exact Or.inl (List.mem_singleton.mpr rfl)
    | inr hold => exact ⟨n', mem_nodes.mpr (Or.inr hold), rfl, rfl⟩
  | postTask now callback late pool at_ emplaced | notify who pool at_ notified =>
    apply same
    unfold nodes
    rw [at_]
    rfl
  | run | fetchAdd | emplace | lockCall | unlockCall | cancel | cancelTest | cancelErase | cancelRet
  | worker | destructor | destroyPool => exact same rfl

/-- A step keeps the timers apart exactly when it meets the condition. -/
theorem Distinct.apart_iff (h : s.Distinct) (hs : s.Sound) (hn : s.Noted g)
    (hstep : s.step a = some t) : t.Apart ↔ FreshId (s, g) a := by
  constructor
  · intro hapart
    by_cases hpush : ∃ k now call n, a = .runStep k now ∧ s.calls k = .push call n
    · obtain ⟨k, now, call, n, rfl, at_⟩ := hpush
      have hpushing := hs.pushing hn at_
      have hmoved : s.runStep k now = some t := (Option.ite_none_left_eq_some.mp hstep).2
      simp only [runStep, at_, Option.some.injEq] at hmoved
      rw [freshId_push_iff hs hn at_]
      intro n' hn'
      have hqueue : t.tmQueue = n :: s.tmQueue := by rw [← hmoved]
      apply (hapart n' _ n _ _).1
      · rw [hqueue]
        exact List.mem_cons_of_mem n hn'
      · rw [hqueue]
        exact List.mem_cons_self
      · rw [hpushing.callback]
        exact hpushing.others n' hn'
    · unfold FreshId
      split
      · next k now =>
        dsimp only
        split
        · next call n at_ => exact absurd ⟨k, now, call, n, rfl, at_⟩ hpush
        · trivial
      · trivial
  · intro hok
    exact (h.step hs hn hok (step_inversion hstep)).apart

/-! ### Runs of any length -/

/-- After a whole run call. -/
def afterCall (s : TimerSystem) (k : Nat) (call : RunCall) (now : Int) : TimerSystem :=
  let n := call.node k (counter32 s.tmCount) now
  { s with
    calls := Function.update s.calls k (.returned call n)
    tmQueue := n :: s.tmQueue
    tmMutex := none
    tick := s.tick.notified
    tmCount := s.tmCount + 1
    tmIdStateMap := s.tmIdStateMap.emplace (counter32 s.tmCount) .running
    emplaced := s.emplaced ++ [counter32 s.tmCount] }

/-- The statements of a run call. -/
theorem run_runCall {k : Nat} {call : RunCall} {now : Int} (free : s.tmMutex = none)
    (running : s.destructor ≠ .returned) (at_ : s.calls k = .idle) :
    run TimerSystem.step s (runCall k call now) = some (s.afterCall k call now) := by
  simp [runCall, List.replicate, run, TimerSystem.step, runStep, setCall, afterCall, free, running,
    at_]

/-- After a whole call of `cancel` for an id in the table. -/
def afterCancel (s : TimerSystem) (c : Nat) (id : Int) : TimerSystem :=
  { s with
    cancels := Function.update s.cancels c (.returned id (s.emplaced.contains id))
    tmIdStateMap := s.tmIdStateMap.erase id
    erased := s.erased ++ [id]
    cancelled := if s.emplaced.contains id then s.cancelled ++ [id] else s.cancelled }

/-- The statements of a call of `cancel`. -/
theorem run_cancel {c : Nat} {id : Int} (running : s.destructor ≠ .returned)
    (at_ : s.cancels c = .idle) (key : s.tmIdStateMap.isKeyExist id = true) :
    run TimerSystem.step s [.cancel c id, .cancelStep c, .cancelStep c, .cancelStep c] =
      some (s.afterCancel c id) := by
  simp [run, TimerSystem.step, cancelStep, setCancel, afterCancel, running, at_, key]

/-- After the tick thread has dropped a node. -/
def afterDrop (s : TimerSystem) (n : TimerNode) : TimerSystem :=
  { s with
    tmQueue := s.tmQueue.erase n
    tmMutex := none
    tick := .head
    dropped := s.dropped ++ [n.tnCallback] }

/-- The tick thread drops a node whose id is not in the table. -/
theorem run_drop {n : TimerNode} (running : s.destructor ≠ .returned) (on : s.tmRunning = true)
    (at_ : s.tick = .head) (free : s.tmMutex = none) (top : IsTop n s.tmQueue)
    (due : n.tnTmPoint = 0) (key : s.tmIdStateMap.isKeyExist n.tnId = false) :
    run TimerSystem.step s [.tick 0, .tick 0, .tick 0, .tickTop n 0, .tick 0, .tick 0] =
      some (s.afterDrop n) := by
  have hne : s.tmQueue ≠ [] := List.ne_nil_of_mem top.1
  simp [run, TimerSystem.step, tickStep, tickTopStep, setTick, afterDrop, running, at_, on, free,
    top, due, key, hne]

/-- The node of a periodic timer, the first one that is made. -/
def firstNode : TimerNode := (RunCall.runAfter 1 true).node 0 0 0

/-- So many timers have been made, and only the first one is left. -/
structure OnlyFirst (s : TimerSystem) (made : Nat) : Prop where
  tmQueue : s.tmQueue = [firstNode]
  tmRunning : s.tmRunning = true
  tmMutex : s.tmMutex = none
  tick : s.tick = .head
  destructor : s.destructor ≠ .returned
  tmCount : s.tmCount = made
  calls : ∀ k, made ≤ k → s.calls k = .idle
  cancels : ∀ c, made ≤ c → s.cancels c = .idle

/-- The first timer is made. -/
theorem exists_onlyFirst_one : ∃ s, Reach TimerSystem.step .init s ∧ s.OnlyFirst 1 := by
  have hstart : run TimerSystem.step .init [.start] = some { init with tick := .head } := rfl
  have hcall : run TimerSystem.step { init with tick := .head } (runCall 0 (.runAfter 1 true) 0) =
      some _ := run_runCall rfl (by decide) rfl
  refine ⟨_, (reach_of_run hstart).trans (reach_of_run hcall), ?_⟩
  constructor
  · rfl
  · rfl
  · rfl
  · rfl
  · exact fun h ↦ by cases h
  · rfl
  · intro k hk
    exact Function.update_of_ne (by omega) ..
  · exact fun _ _ ↦ rfl

/-- One more timer is made, cancelled and dropped. -/
theorem OnlyFirst.more {made : Nat} (h : s.OnlyFirst made) :
    ∃ t, Reach TimerSystem.step s t ∧ t.OnlyFirst (made + 1) := by
  let n : TimerNode := ⟨0, made, counter32 made, 0, false, false, 0⟩
  let u := s.afterCall made (.runAfter 0 false) 0
  let v := u.afterCancel made (counter32 made)
  have hqueue : u.tmQueue = [n, firstNode] := by
    show (RunCall.runAfter 0 false).node made (counter32 s.tmCount) 0 :: s.tmQueue = _
    rw [h.tmQueue, h.tmCount]
    rfl
  have hkey : u.tmIdStateMap.isKeyExist (counter32 made) = true := by
    show (s.tmIdStateMap.emplace (counter32 s.tmCount) .running).isKeyExist _ = true
    rw [h.tmCount, HashMap.isKeyExist_emplace, decide_eq_true rfl, Bool.true_or]
  have hgone : v.tmIdStateMap.isKeyExist (counter32 made) = false := by
    show (u.tmIdStateMap.erase (counter32 made)).isKeyExist _ = false
    rw [HashMap.isKeyExist_erase, decide_eq_false (not_not_intro rfl), Bool.false_and]
  have hhead : u.tick = .head := by
    show s.tick.notified = .head
    rw [h.tick]
    rfl
  have htop : IsTop n v.tmQueue := by
    show IsTop n u.tmQueue
    rw [hqueue]
    refine ⟨List.mem_cons_self, ?_⟩
    intro x hx
    rcases List.mem_cons.mp hx with rfl | hfirst
    · exact Int.le_refl _
    · rw [List.mem_singleton.mp hfirst]
      show (0 : Int) ≤ 1000000
      decide
  have hcall : run TimerSystem.step s _ = some u :=
    run_runCall h.tmMutex h.destructor (h.calls made (Nat.le_refl _))
  have hcancel : run TimerSystem.step u _ = some v :=
    run_cancel h.destructor (h.cancels made (Nat.le_refl _)) hkey
  have hdrop : run TimerSystem.step v _ = some (v.afterDrop n) :=
    run_drop h.destructor h.tmRunning hhead rfl htop rfl hgone
  refine ⟨v.afterDrop n, ?_, ?_⟩
  · exact ((reach_of_run hcall).trans (reach_of_run hcancel)).trans (reach_of_run hdrop)
  constructor
  · show u.tmQueue.erase n = _
    rw [hqueue, List.erase_cons_head]
  · exact h.tmRunning
  · rfl
  · rfl
  · exact h.destructor
  · show s.tmCount + 1 = made + 1
    rw [h.tmCount]
  · intro k hk
    show Function.update s.calls made _ k = .idle
    rw [Function.update_of_ne (by omega)]
    exact h.calls k (by omega)
  · intro c hc
    show Function.update s.cancels made _ c = .idle
    rw [Function.update_of_ne (by omega)]
    exact h.cancels c (by omega)

/-- Any number of timers can be made beside the first. -/
theorem exists_onlyFirst (more : Nat) :
    ∃ s, Reach TimerSystem.step .init s ∧ s.OnlyFirst (more + 1) := by
  induction more with
  | zero => exact exists_onlyFirst_one
  | succ more ih =>
    obtain ⟨s, hs, honly⟩ := ih
    obtain ⟨t, ht, hmore⟩ := honly.more
    exact ⟨t, hs.trans ht, hmore⟩

end TimerSystem

/-- In every run, of any length, in which no call pushes its node beside one of a timer that was
made a multiple of 2³² timers earlier or later, any two timers in the queue have different ids, and
cancelling one leaves the key of the other. The next step leaves this so exactly when it meets the
condition. -/
theorem pending_timers_apart {s : TimerSystem} {g : Nat → Option Nat}
    (h : ReachBy (withHistory TimerSystem.step TimerSystem.noteNumber) TimerSystem.FreshId
      (.init, fun _ ↦ none) (s, g)) :
    s.Apart ∧ ∀ a t, s.step a = some t → (t.Apart ↔ TimerSystem.FreshId (s, g) a) := by
  have hinv : s.Sound ∧ s.Noted g ∧ s.Distinct := by
    apply h.invariant (P := fun p ↦ p.1.Sound ∧ p.1.Noted p.2 ∧ p.1.Distinct)
    · refine ⟨TimerSystem.sound_init, ?_, ?_⟩
      · intro k id hk
        cases hk
      · intro n hn
        cases hn
    · rintro ⟨s, g⟩ a ⟨t, g'⟩ ⟨hsound, hnoted, hdistinct⟩ hok hstep
      obtain ⟨hmoved, hnote⟩ := withHistory_eq_some.mp hstep
      have hmove := TimerSystem.step_inversion hmoved
      rw [show g' = TimerSystem.noteNumber s a t g from hnote]
      exact ⟨hsound.step hmove, hnoted.step hmove, hdistinct.step hsound hnoted hok hmove⟩
  obtain ⟨hsound, hnoted, hdistinct⟩ := hinv
  exact ⟨hdistinct.apart, fun a t hstep ↦ hdistinct.apart_iff hsound hnoted hstep⟩

/-- The three timers of that run are apart. -/
theorem three_timers_apart :
    ∃ p, run (withHistory TimerSystem.step TimerSystem.noteNumber) (.init, fun _ ↦ none)
        threeTimers = some p ∧
      p.1.Apart := by
  have hrun : (run (withHistory TimerSystem.step TimerSystem.noteNumber) (.init, fun _ ↦ none)
      threeTimers).isSome := by decide +kernel
  obtain ⟨⟨s, g⟩, hs⟩ := Option.isSome_iff_exists.mp hrun
  exact ⟨(s, g), hs, (pending_timers_apart (reachBy_of_run hs (by decide +kernel))).1⟩

/-- The timer that is made 2³² timers after a periodic one gets its id. -/
theorem id_of_periodic_timer_comes_again :
    ¬ ∀ s, Reach TimerSystem.step .init s → s.Apart := by
  intro h
  obtain ⟨s, hs, honly⟩ := TimerSystem.exists_onlyFirst 4294967295
  have hcall : run TimerSystem.step s _ =
      some (s.afterCall 4294967296 (.runAfter 0 false) 0) :=
    TimerSystem.run_runCall honly.tmMutex honly.destructor (honly.calls 4294967296 (Nat.le_refl _))
  have hqueue : (s.afterCall 4294967296 (.runAfter 0 false) 0).tmQueue =
      [⟨0, 4294967296, 0, 0, false, false, 0⟩, TimerSystem.firstNode] := by
    show (RunCall.runAfter 0 false).node 4294967296 (counter32 s.tmCount) 0 :: s.tmQueue = _
    rw [honly.tmQueue, honly.tmCount]
    rfl
  have hapart := h _ (hs.trans (reach_of_run hcall))
  unfold TimerSystem.Apart at hapart
  rw [hqueue] at hapart
  have hids := (hapart _ List.mem_cons_self _ (List.mem_cons_of_mem _ List.mem_cons_self)
    (by decide)).1
  exact hids rfl

end ConcurrentServer.Timer
