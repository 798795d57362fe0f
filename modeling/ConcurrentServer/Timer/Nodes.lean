import ConcurrentServer.Timer.Ids
import ConcurrentServer.Timer.Life
import Mathlib.Data.List.Count
import Mathlib.Data.List.Nodup

/-!
# Conservation of timer nodes

`src/timer/timer.h:60–158`. The node of a call is in `tm_queue` or in the hands of the tick
thread, and its postings are made or about to be made; with these every timer follows its life.
-/

namespace ConcurrentServer.Timer
open ConcurrentServer.Base

/-- What there is of the timer of a call: nothing until its node has been pushed, and its life
from then on. -/
inductive History : Option (RunCall × TimerNode) → List TimerNode → Nat → Nat → Prop
  | unborn : History none [] 0 0
  | born (call : RunCall) (m : TimerNode) (nodes : List TimerNode) (posts drops : Nat)
    (life : Life call m nodes posts drops) : History (some (call, m)) nodes posts drops

namespace History

variable {pushed? : Option (RunCall × TimerNode)} {n : TimerNode} {l l' : List TimerNode}
  {posts drops : Nat}

/-- The order of the nodes does not matter. -/
theorem perm (h : History pushed? l posts drops) (hp : l'.Perm l) :
    History pushed? l' posts drops := by
  cases h with
  | unborn =>
    rw [List.perm_nil.mp hp]
    exact .unborn
  | born call m nodes posts drops life => exact .born call m l' posts drops (life.perm hp)

/-- A node is pushed for the first time. -/
theorem begin (h : History none l posts drops) (call : RunCall) (k : Nat) (id now : Int) :
    History (some (call, call.node k id now)) (call.node k id now :: l) posts drops := by
  cases h with
  | unborn => exact .born call _ _ _ _ (life_node call k id now)

/-- A timer with a node has been pushed, and this is its only node. -/
theorem of_cons (h : History pushed? (n :: l) posts drops) :
    ∃ call m, pushed? = some (call, m) ∧ l = [] ∧ drops = 0 ∧ Copy call m n posts := by
  cases h with
  | born call m nodes posts drops life => exact ⟨call, m, rfl, life.of_cons⟩

/-- A node expires: the callback is posted, and the node may be pushed again. -/
theorem expire (h : History pushed? (n :: l) posts drops) (now : Int) :
    History pushed? ((n.rearmed now).toList ++ l) (posts + 1) drops := by
  obtain ⟨call, m, rfl, rfl, rfl, copy⟩ := h.of_cons
  rw [List.append_nil]
  exact .born call m _ _ _ (Life.expire copy now)

/-- A node is dropped. -/
theorem drop (h : History pushed? (n :: l) posts drops) :
    History pushed? l posts (drops + 1) := by
  obtain ⟨call, m, rfl, rfl, rfl, copy⟩ := h.of_cons
  exact .born call m _ _ _ (.dropped n posts copy)

end History

namespace TimerSystem

/-- The nodes in the queue and in the hands of the tick thread. -/
def nodes (s : TimerSystem) : List TimerNode := s.tick.inHand ++ s.tmQueue

/-- The nodes of call `k`. -/
def nodesOf (s : TimerSystem) (k : Nat) : List TimerNode :=
  s.nodes.filter fun n ↦ n.tnCallback == k

/-- The nodes of call `k` that are in the queue. -/
def pending (s : TimerSystem) (k : Nat) : List TimerNode :=
  s.tmQueue.filter fun n ↦ n.tnCallback == k

/-- How often the callback of call `k` has been posted, or is about to be. -/
def posts (s : TimerSystem) (k : Nat) : Nat := s.tick.posting.count k + s.posted.count k

variable {s t : TimerSystem} {a : TimerAction}

/-- A node is in the tick thread's hands or in the queue. -/
theorem mem_nodes {n : TimerNode} : n ∈ s.nodes ↔ n ∈ s.tick.inHand ∨ n ∈ s.tmQueue :=
  List.mem_append

/-- The nodes of each call are the same if the nodes are. -/
theorem nodesOf_perm (h : t.nodes.Perm s.nodes) (k : Nat) : (t.nodesOf k).Perm (s.nodesOf k) :=
  h.filter _

/-- The nodes of each call, with a node in front. -/
theorem nodesOf_cons {n : TimerNode} {rest : List TimerNode} (h : s.nodes = n :: rest) (k : Nat) :
    s.nodesOf k =
      if n.tnCallback = k then n :: rest.filter (fun n ↦ n.tnCallback == k)
      else rest.filter (fun n ↦ n.tnCallback == k) := by
  unfold nodesOf
  rw [h, List.filter_cons]
  simp only [beq_iff_eq]

/-- What is pushed again belongs to the call of the node. -/
theorem filter_rearmed (n : TimerNode) (now : Int) (k : Nat) :
    (n.rearmed now).toList.filter (fun n ↦ n.tnCallback == k) =
      if n.tnCallback = k then (n.rearmed now).toList else [] := by
  cases hn : n.rearmed now with
  | none => simp
  | some n' => simp [List.filter_cons, tnCallback_rearmed hn]

/-- Each node comes from its call, and each timer follows its life. A node about to be popped is
in the queue. -/
structure Kept (s : TimerSystem) : Prop where
  made : ∀ k call m, (s.calls k).made? = some (call, m) → ∃ id now, m = call.node k id now
  history : ∀ k, History (s.calls k).pushed? (s.nodesOf k) (s.posts k) (s.dropped.count k)
  popped : ∀ n, s.tick = .pop n → n ∈ s.tmQueue

/-- What the tick thread is notified of does not concern its node. -/
theorem eq_pop_of_notified {pc : TickPc} {n : TimerNode} (h : pc.notified = .pop n) :
    pc = .pop n := by
  cases pc with
  | waiting notified => cases h
  | waitingFor n' notified => cases h
  | _ => exact h

/-- Before the first step. -/
theorem kept_init : init.Kept := by
  constructor
  · intro k call m h
    cases h
  · intro k
    exact .unborn
  · intro n h
    cases h

/-- A node and what was posted and dropped stay where they are. -/
theorem Kept.congr (h : s.Kept) (made : ∀ k, (t.calls k).made? = (s.calls k).made?)
    (pushed : ∀ k, (t.calls k).pushed? = (s.calls k).pushed?) (nodes : t.nodes.Perm s.nodes)
    (posts : ∀ k, t.posts k = s.posts k) (dropped : t.dropped = s.dropped)
    (popped : ∀ n, t.tick = .pop n → n ∈ t.tmQueue) : t.Kept := by
  constructor
  · intro k call m hk
    rw [made] at hk
    exact h.made k call m hk
  · intro k
    rw [pushed, posts, dropped]
    exact (h.history k).perm (nodesOf_perm nodes k)
  · exact popped

/-- A call that has no node yet, or keeps it, moves on. -/
theorem Kept.move (h : s.Kept) {k : Nat} {pc : RunPc}
    (calls : t.calls = Function.update s.calls k pc) (made : pc.made? = (s.calls k).made?)
    (pushed : pc.pushed? = (s.calls k).pushed?) (tick : t.tick = s.tick)
    (tmQueue : t.tmQueue = s.tmQueue) (posted : t.posted = s.posted)
    (dropped : t.dropped = s.dropped) : t.Kept := by
  apply h.congr _ _ _ _ dropped
  · rw [tick, tmQueue]
    exact h.popped
  · rw [calls]
    exact apply_update_of_same RunPc.made? made
  · rw [calls]
    exact apply_update_of_same RunPc.pushed? pushed
  · unfold nodes
    rw [tick, tmQueue]
  · intro k'
    unfold posts
    rw [tick, posted]

/-- A call fills in its node. -/
theorem Kept.emplace (h : s.Kept) {k : Nat} {call : RunCall} {id now : Int}
    (at_ : s.calls k = .emplace call id)
    (calls : t.calls = Function.update s.calls k (.lock call (call.node k id now)))
    (tick : t.tick = s.tick) (tmQueue : t.tmQueue = s.tmQueue) (posted : t.posted = s.posted)
    (dropped : t.dropped = s.dropped) : t.Kept := by
  constructor
  · intro k' call' m hk
    rw [calls] at hk
    by_cases hkk : k' = k
    · rw [hkk, Function.update_self] at hk
      cases hk
      exact ⟨id, now, by rw [hkk]⟩
    · rw [Function.update_of_ne hkk] at hk
      exact h.made k' call' m hk
  · intro k'
    have hpushed : (t.calls k').pushed? = (s.calls k').pushed? := by
      rw [calls]
      exact apply_update_of_same RunPc.pushed? (by rw [at_]; rfl) k'
    have hold := h.history k'
    unfold nodesOf nodes posts at hold ⊢
    rw [hpushed, tick, tmQueue, posted, dropped]
    exact hold
  · rw [tick, tmQueue]
    exact h.popped

/-- A call pushes its node. -/
theorem Kept.push (h : s.Kept) {k : Nat} {call : RunCall} {n : TimerNode}
    (at_ : s.calls k = .push call n)
    (calls : t.calls = Function.update s.calls k (.notify call n))
    (tick : t.tick = s.tick) (tmQueue : t.tmQueue = n :: s.tmQueue)
    (posted : t.posted = s.posted) (dropped : t.dropped = s.dropped) : t.Kept := by
  obtain ⟨id, now, hn⟩ := h.made k call n (by rw [at_]; rfl)
  have hcallback : n.tnCallback = k := by
    rw [hn]
    cases call <;> rfl
  have hposts (k' : Nat) : t.posts k' = s.posts k' := by
    unfold posts
    rw [tick, posted]
  have hnodes : t.nodes.Perm (n :: s.nodes) := by
    unfold nodes
    rw [tick, tmQueue]
    exact List.perm_middle
  constructor
  · intro k' call' m hk
    rw [calls] at hk
    by_cases hkk : k' = k
    · rw [hkk, Function.update_self] at hk
      cases hk
      rw [hkk]
      exact ⟨id, now, hn⟩
    · rw [Function.update_of_ne hkk] at hk
      exact h.made k' call' m hk
  · intro k'
    have hfilter : (t.nodesOf k').Perm (if n.tnCallback = k' then n :: s.nodesOf k'
        else s.nodesOf k') := by
      have hperm := hnodes.filter fun n ↦ n.tnCallback == k'
      rw [List.filter_cons] at hperm
      simp only [beq_iff_eq] at hperm
      exact hperm
    rw [hposts, dropped]
    have hold := h.history k'
    rw [hcallback] at hfilter
    by_cases hkk : k = k'
    · rw [if_pos hkk] at hfilter
      rw [← hkk, at_] at hold
      rw [← hkk, calls, Function.update_self]
      rw [← hkk] at hfilter
      have hbegin := hold.begin call k id now
      rw [← hn] at hbegin
      exact hbegin.perm hfilter
    · rw [if_neg hkk] at hfilter
      rw [calls, Function.update_of_ne (Ne.symm hkk)]
      exact hold.perm hfilter
  · intro n' hpop
    rw [tick] at hpop
    rw [tmQueue]
    apply List.mem_cons_of_mem
    exact h.popped n' hpop

/-- The moves of the tick thread keep the node in hand and the callback about to be posted. -/
theorem TickMove.keeps {pc : TickPc} {holder : Option Holder} (move : TickMove s pc holder) :
    pc.inHand = s.tick.inHand ∧ pc.posting = s.tick.posting := by
  cases move <;> (rename s.tick = _ => at_; rw [at_]; exact ⟨rfl, rfl⟩)

/-- The tick thread moves. -/
theorem Kept.tickMove (h : s.Kept) {pc : TickPc} {holder : Option Holder}
    (move : TickMove s pc holder) : (s.setTick pc holder).Kept := by
  obtain ⟨hinHand, hposting⟩ := move.keeps
  refine h.congr (fun _ ↦ rfl) (fun _ ↦ rfl) ?_ ?_ rfl ?_
  · show (pc.inHand ++ s.tmQueue).Perm (s.tick.inHand ++ s.tmQueue)
    rw [hinHand]
  · intro k
    show pc.posting.count k + s.posted.count k = s.tick.posting.count k + s.posted.count k
    rw [hposting]
  · intro n hpop
    have hpc : pc = .pop n := hpop
    rw [hpc] at move
    cases move with
    | due _ at_ top => exact top.1

/-- The tick thread pops a node. -/
theorem Kept.pop (h : s.Kept) {n : TimerNode} {late : Bool} (at_ : s.tick = .pop n)
    (calls : t.calls = s.calls) (tick : t.tick = .isKeyExist n late)
    (tmQueue : t.tmQueue = s.tmQueue.erase n) (posted : t.posted = s.posted)
    (dropped : t.dropped = s.dropped) : t.Kept := by
  refine h.congr ?_ ?_ ?_ ?_ dropped ?_
  · intro k
    rw [calls]
  · intro k
    rw [calls]
  · unfold nodes
    rw [tick, at_, tmQueue]
    exact (List.perm_cons_erase (h.popped n at_)).symm
  · intro k
    unfold posts
    rw [tick, at_, posted]
    rfl
  · intro n' hpop
    rw [tick] at hpop
    cases hpop

/-- The tick thread drops the node in hand. -/
theorem Kept.drop (h : s.Kept) {n : TimerNode} {late : Bool} (at_ : s.tick = .isKeyExist n late)
    (calls : t.calls = s.calls) (tick : t.tick = .head) (tmQueue : t.tmQueue = s.tmQueue)
    (posted : t.posted = s.posted) (dropped : t.dropped = s.dropped ++ [n.tnCallback]) :
    t.Kept := by
  have hnodes : s.nodes = n :: t.nodes := by
    unfold nodes
    rw [at_, tick, tmQueue]
    rfl
  constructor
  · rw [calls]
    exact h.made
  · intro k
    have hold := h.history k
    have hposts : t.posts k = s.posts k := by
      unfold posts
      rw [at_, tick, posted]
      rfl
    rw [calls, hposts, dropped, List.count_append, List.count_singleton]
    rw [nodesOf_cons hnodes] at hold
    by_cases hk : n.tnCallback = k
    · rw [if_pos hk] at hold
      rw [if_pos (beq_iff_eq.mpr hk)]
      exact hold.drop
    · rw [if_neg hk] at hold
      rw [if_neg (by simpa using hk)]
      exact hold
  · intro n' hpop
    rw [tick] at hpop
    cases hpop

/-- The tick thread pushes the node in hand again or not, and is to post its callback. -/
theorem Kept.rearm (h : s.Kept) {n : TimerNode} {late : Bool} {now : Int}
    (at_ : s.tick = .rearm n late) (calls : t.calls = s.calls)
    (tick : t.tick = .unlock n.tnCallback late)
    (tmQueue : t.tmQueue = (n.rearmed now).toList ++ s.tmQueue) (posted : t.posted = s.posted)
    (dropped : t.dropped = s.dropped) : t.Kept := by
  have hnodes : s.nodes = n :: s.tmQueue := by
    unfold nodes
    rw [at_]
    rfl
  constructor
  · rw [calls]
    exact h.made
  · intro k
    have hold := h.history k
    have hnodesOf : t.nodesOf k =
        (if n.tnCallback = k then (n.rearmed now).toList else []) ++
          s.tmQueue.filter fun n ↦ n.tnCallback == k := by
      unfold nodesOf nodes
      rw [tick, tmQueue, List.filter_append, List.filter_append, filter_rearmed]
      rfl
    have hposts : t.posts k = s.posts k + if n.tnCallback = k then 1 else 0 := by
      unfold posts
      rw [tick, at_, posted]
      show [n.tnCallback].count k + _ = [].count k + _ + _
      rw [List.count_singleton, List.count_nil]
      simp only [beq_iff_eq]
      omega
    rw [nodesOf_cons hnodes] at hold
    rw [calls, hnodesOf, hposts, dropped]
    by_cases hk : n.tnCallback = k
    · rw [if_pos hk] at hold
      rw [if_pos hk, if_pos hk]
      exact hold.expire now
    · rw [if_neg hk] at hold
      rw [if_neg hk, if_neg hk]
      exact hold
  · intro n' hpop
    rw [tick] at hpop
    cases hpop

/-- The tick thread has posted a callback. -/
theorem Kept.postTask (h : s.Kept) {callback : Nat} {late : Bool}
    (at_ : s.tick = .emplace callback late) (calls : t.calls = s.calls) (tick : t.tick = .notify)
    (tmQueue : t.tmQueue = s.tmQueue) (posted : t.posted = s.posted ++ [callback])
    (dropped : t.dropped = s.dropped) : t.Kept := by
  refine h.congr ?_ ?_ ?_ ?_ dropped ?_
  · intro k
    rw [calls]
  · intro k
    rw [calls]
  · unfold nodes
    rw [tick, at_, tmQueue]
    exact .refl _
  · intro k
    unfold posts
    rw [tick, at_, posted, List.count_append]
    show [].count k + _ = [callback].count k + _
    rw [List.count_nil]
    omega
  · intro n' hpop
    rw [tick] at hpop
    cases hpop

/-- The tick thread is notified. -/
theorem Kept.notified (h : s.Kept) (calls : t.calls = s.calls) (tick : t.tick = s.tick.notified)
    (tmQueue : t.tmQueue = s.tmQueue) (posted : t.posted = s.posted)
    (dropped : t.dropped = s.dropped) : t.Kept := by
  refine h.congr ?_ ?_ ?_ ?_ dropped ?_
  · intro k
    rw [calls]
  · intro k
    rw [calls]
  · unfold nodes
    rw [tick, inHand_notified, tmQueue]
  · intro k
    unfold posts
    rw [tick, posting_notified, posted]
  · intro n hpop
    rw [tick] at hpop
    rw [tmQueue]
    exact h.popped n (eq_pop_of_notified hpop)

/-- Every step. -/
theorem Kept.step (h : s.Kept) (hstep : Step s a t) : t.Kept := by
  cases hstep with
  | run k call at_ | fetchAdd k now call at_ | lockCall k now call n at_ free
  | unlockCall k now call n at_ =>
    exact h.move rfl (by rw [at_]; rfl) (by rw [at_]; rfl) rfl rfl rfl rfl
  | emplace k now call id at_ => exact h.emplace at_ rfl rfl rfl rfl rfl
  | push k now call n at_ => exact h.push at_ rfl rfl rfl rfl rfl
  | notifyCall k now call n at_ =>
    have hmove : (s.setCall k (.unlock call n)).Kept :=
      h.move rfl (by rw [at_]; rfl) (by rw [at_]; rfl) rfl rfl rfl rfl
    exact hmove.notified rfl rfl rfl rfl rfl
  | tickMove a pc holder move => exact h.tickMove move
  | pop now n at_ => exact h.pop at_ rfl rfl rfl rfl rfl
  | drop now n late at_ key => exact h.drop at_ rfl rfl rfl rfl rfl
  | rearm now n late at_ => exact h.rearm at_ rfl rfl rfl rfl rfl
  | postTask now callback late pool at_ emplaced => exact h.postTask at_ rfl rfl rfl rfl rfl
  | notify who pool at_ notified =>
    refine h.congr (fun _ ↦ rfl) (fun _ ↦ rfl) ?_ ?_ rfl ?_
    · unfold nodes
      rw [at_]
      exact .refl _
    · intro k
      unfold posts
      rw [at_]
      rfl
    · intro n hpop
      cases hpop
  | notifyTick a pc => exact h.notified rfl rfl rfl rfl rfl
  | cancel | cancelTest | cancelErase | cancelRet | worker | destructor | destroyPool =>
    exact ⟨h.made, h.history, h.popped⟩

/-! ### What is dropped -/

/-- A call that has pushed its node has done so for good. -/
theorem Step.pushed (hstep : Step s a t) {k : Nat} {p : RunCall × TimerNode}
    (h : (s.calls k).pushed? = some p) : (t.calls k).pushed? = some p := by
  cases hstep with
  | run k' call at_ | fetchAdd k' now call at_ | emplace k' now call id at_
  | lockCall k' now call n at_ free | push k' now call n at_ =>
    apply apply_update_of_keeps h
    intro hp
    rw [at_] at hp
    cases hp
  | notifyCall k' now call n at_ | unlockCall k' now call n at_ =>
    apply apply_update_of_keeps h
    intro hp
    rw [at_] at hp
    exact hp
  | _ => exact h

/-- What has been erased has been erased for good. -/
theorem Step.erased (hstep : Step s a t) : s.erased ⊆ t.erased := by
  cases hstep with
  | cancelErase c id known at_ => exact List.subset_append_left _ _
  | _ => exact List.Subset.refl _

/-- A node is the only one of its call, which has pushed it. -/
theorem Kept.of_mem (h : s.Kept) {n : TimerNode} (hn : n ∈ s.nodes) :
    ∃ call m, (s.calls n.tnCallback).pushed? = some (call, m) ∧ n.tnId = m.tnId ∧
      s.nodesOf n.tnCallback = [n] := by
  have hmem : n ∈ s.nodesOf n.tnCallback := by
    apply List.mem_filter.mpr
    exact ⟨hn, beq_self_eq_true _⟩
  have hhistory := h.history n.tnCallback
  cases hl : s.nodesOf n.tnCallback with
  | nil =>
    rw [hl] at hmem
    cases hmem
  | cons n' rest =>
    rw [hl] at hhistory hmem
    obtain ⟨call, m, hpushed, rfl, -, copy⟩ := hhistory.of_cons
    rw [List.mem_singleton.mp hmem]
    refine ⟨call, m, ?_, copy.id, rfl⟩
    rw [← List.mem_singleton.mp hmem]
    exact hpushed

/-- The node of a call that has pushed it has the id that the call entered. -/
theorem entered?_of_pushed? {pc : RunPc} {call : RunCall} {m : TimerNode}
    (h : pc.pushed? = some (call, m)) : pc.entered? = some m.tnId := by
  cases pc with
  | notify call m | unlock call m | returned call m =>
    cases h
    rfl
  | _ => cases h

/-- The node that is looked up is one of the nodes. -/
theorem mem_nodes_of_isKeyExist {n : TimerNode} {late : Bool} (at_ : s.tick = .isKeyExist n late) :
    n ∈ s.nodes := by
  unfold nodes
  rw [at_]
  exact List.mem_append_left _ (List.mem_singleton.mpr rfl)

/-- Nothing is dropped but for the erasure of its id. -/
def DroppedErased (s : TimerSystem) : Prop :=
  ∀ k ∈ s.dropped, ∃ call m, (s.calls k).pushed? = some (call, m) ∧ m.tnId ∈ s.erased

/-- Every step. -/
theorem droppedErased_step (h : s.DroppedErased) (ht : s.Table) (hk : s.Kept)
    (hstep : Step s a t) : t.DroppedErased := by
  have keep (k : Nat) (hmem : k ∈ s.dropped) :
      ∃ call m, (t.calls k).pushed? = some (call, m) ∧ m.tnId ∈ t.erased := by
    obtain ⟨call, m, hpushed, herased⟩ := h k hmem
    exact ⟨call, m, hstep.pushed hpushed, hstep.erased herased⟩
  cases hstep with
  | drop now n late at_ key =>
    intro k hmem
    have hor : k ∈ s.dropped ++ [n.tnCallback] := hmem
    rw [List.mem_append, List.mem_singleton] at hor
    cases hor with
    | inl hold => exact keep k hold
    | inr hnew =>
      obtain ⟨call, m, hpushed, hid, -⟩ := hk.of_mem (mem_nodes_of_isKeyExist at_)
      rw [hnew]
      refine ⟨call, m, hpushed, ?_⟩
      apply ht.missing n.tnCallback m.tnId (entered?_of_pushed? hpushed)
      rw [← hid]
      exact key
  | _ => exact keep

/-- What holds in every reached state of the timer. -/
structure Sound (s : TimerSystem) : Prop where
  exclusive : s.Exclusive
  numbered : s.Numbered
  table : s.Table
  punctual : s.Punctual
  kept : s.Kept
  dropped : s.DroppedErased

/-- Before the first step. -/
theorem sound_init : init.Sound := by
  refine ⟨exclusive_init, numbered_init, table_init, punctual_init, kept_init, ?_⟩
  intro k h
  cases h

/-- Every step. -/
theorem Sound.step (h : s.Sound) (hstep : Step s a t) : t.Sound where
  exclusive := h.exclusive.step hstep
  numbered := h.numbered.step hstep
  table := h.table.step h.numbered hstep
  punctual := h.punctual.step h.numbered h.table hstep
  kept := h.kept.step hstep
  dropped := droppedErased_step h.dropped h.table h.kept hstep

/-- Every run. -/
theorem sound_of_reach (h : Reach step init s) : s.Sound := by
  apply h.invariant sound_init
  intro s a t hs _ hstep
  exact hs.step (step_inversion hstep)

/-! ### Conservation -/

/-- No two nodes have the same id. -/
theorem Sound.nodup (h : s.Sound) (few : s.tmCount ≤ 2 ^ 32) :
    (s.nodes.map TimerNode.tnId).Nodup := by
  apply List.Nodup.map_on
  · intro x hx y hy hid
    obtain ⟨callx, mx, hpx, hidx, hnx⟩ := h.kept.of_mem hx
    obtain ⟨cally, my, hpy, hidy, hny⟩ := h.kept.of_mem hy
    have hk : x.tnCallback = y.tnCallback := by
      apply h.numbered.distinct few mx.tnId _ _ (id?_of_entered? (entered?_of_pushed? hpx))
      rw [← hidx, hid, hidy]
      exact id?_of_entered? (entered?_of_pushed? hpy)
    rw [hk, hny] at hnx
    exact (List.singleton_inj.mp hnx).symm
  · apply List.nodup_iff_count_le_one.mpr
    intro x
    by_cases hx : x ∈ s.nodes
    · obtain ⟨-, -, -, -, hnx⟩ := h.kept.of_mem hx
      have hcount : (s.nodesOf x.tnCallback).count x = s.nodes.count x := by
        apply List.count_filter
        exact beq_self_eq_true _
      rw [← hcount, hnx]
      exact List.count_le_length
    · rw [List.count_eq_zero.mpr hx]
      exact Nat.zero_le 1

/-- With `tm_mutex` free and the tick thread not between its unlock and its `post_task`, nothing
is in the tick thread's hands. -/
theorem Exclusive.settled (h : s.Exclusive) (free : s.tmMutex = none)
    (settled : s.tick.betweenUnlockAndPost = false) :
    s.tick.inHand = [] ∧ s.tick.posting = [] := by
  have houtside : s.tick.holds = false := by
    apply Bool.eq_false_of_not_eq_true
    intro hold
    have htick := h.tick hold
    rw [free] at htick
    cases htick
  cases hpc : s.tick <;> rw [hpc] at houtside settled <;> first
    | exact ⟨rfl, rfl⟩
    | exact absurd houtside.symm Bool.false_ne_true
    | exact absurd settled.symm Bool.false_ne_true

/-- The life of the timer of a call that has returned, when nothing is in the tick thread's
hands. -/
theorem Sound.life (h : s.Sound) (free : s.tmMutex = none)
    (settled : s.tick.betweenUnlockAndPost = false) {k : Nat} {call : RunCall} {m : TimerNode}
    (returned : s.calls k = .returned call m) :
    Life call m (s.pending k) (s.posted.count k) (s.dropped.count k) := by
  obtain ⟨hinHand, hposting⟩ := h.exclusive.settled free settled
  have hhistory := h.kept.history k
  unfold nodesOf nodes posts at hhistory
  rw [hinHand, hposting, returned, List.nil_append, List.count_nil, Nat.zero_add] at hhistory
  cases hhistory with
  | born call m nodes posts drops life => exact life

/-- Where a one-shot timer is. -/
inductive OneShot (s : TimerSystem) (k : Nat) (m : TimerNode) : Prop
  /-- It is pending. -/
  | pending (node : (s.pending k).map TimerNode.tnId = [m.tnId])
    (posted : s.posted.count k = 0) (dropped : s.dropped.count k = 0)
  /-- It has been posted once. -/
  | posted (node : s.pending k = []) (posted : s.posted.count k = 1)
    (dropped : s.dropped.count k = 0)
  /-- It has been dropped after its cancellation. -/
  | dropped (node : s.pending k = []) (posted : s.posted.count k = 0)
    (dropped : s.dropped.count k = 1) (erased : m.tnId ∈ s.erased)

/-- The id of a dropped timer has been erased. -/
theorem Sound.erased (h : s.Sound) {k : Nat} {call : RunCall} {m : TimerNode}
    (returned : s.calls k = .returned call m) (dropped : 0 < s.dropped.count k) :
    m.tnId ∈ s.erased := by
  obtain ⟨call', m', hpushed, herased⟩ := h.dropped k (List.count_pos_iff.mp dropped)
  rw [returned] at hpushed
  cases hpushed
  exact herased

/-- A one-shot timer is in one of its states. -/
theorem Sound.oneShot (h : s.Sound) (free : s.tmMutex = none)
    (settled : s.tick.betweenUnlockAndPost = false) {k : Nat} {call : RunCall} {m : TimerNode}
    (returned : s.calls k = .returned call m) (kind : call.isOneShot = true) :
    s.OneShot k m := by
  have hlife := h.life free settled returned
  have herased := h.erased returned
  generalize hl : s.pending k = l at hlife
  generalize hp : s.posted.count k = p at hlife
  generalize hd : s.dropped.count k = d at hlife herased
  cases hlife with
  | pending n posts copy =>
    apply OneShot.pending _ _ hd
    · rw [hl, List.map_singleton, copy.id]
    · rw [hp]
      exact RunCall.postedSoFar_oneShot kind copy.posted
  | spent posts posted =>
    apply OneShot.posted hl _ hd
    rw [hp]
    exact RunCall.postedInAll_oneShot kind posted
  | dropped n posts copy =>
    apply OneShot.dropped hl _ hd (herased Nat.one_pos)
    rw [hp]
    exact RunCall.postedSoFar_oneShot kind copy.posted

/-- A periodic timer that was never cancelled is pending. -/
theorem Sound.periodic (h : s.Sound) (free : s.tmMutex = none)
    (settled : s.tick.betweenUnlockAndPost = false) {k : Nat} {call : RunCall} {m : TimerNode}
    (returned : s.calls k = .returned call m) (kind : call.isPeriod = true)
    (never : ∀ c, (s.cancels c).id? ≠ some m.tnId) :
    (s.pending k).map TimerNode.tnId = [m.tnId] := by
  have hlife := h.life free settled returned
  have herased := h.erased returned
  generalize s.pending k = l at hlife
  generalize s.posted.count k = p at hlife
  generalize s.dropped.count k = d at hlife herased
  cases hlife with
  | pending n posts copy => rw [List.map_singleton, copy.id]
  | spent _ posted => exact absurd posted (RunCall.not_postedInAll_period kind _)
  | dropped n posts copy =>
    obtain ⟨c, hc⟩ := h.table.erased m.tnId (herased Nat.one_pos)
    exact absurd hc (never c)

end TimerSystem

/-- In every run that makes fewer than 2³² timers, whenever `tm_mutex` is free and the tick thread
is not between its unlock and its `post_task`: no two nodes in the queue have the same id, a
one-shot timer whose run call has returned is pending, was posted once or was dropped after its
cancellation, a periodic timer that was never cancelled has one node pending, and no node popped
after its id was cancelled has been posted or re-armed. -/
theorem timer_nodes_conserved {s : TimerSystem} (h : Reach TimerSystem.step .init s)
    (few : s.tmCount < 2 ^ 32) (free : s.tmMutex = none)
    (settled : s.tick.betweenUnlockAndPost = false) :
    (s.tmQueue.map TimerNode.tnId).Nodup ∧
      (∀ k call m, s.calls k = .returned call m → call.isOneShot = true → s.OneShot k m) ∧
      (∀ k call m, s.calls k = .returned call m → call.isPeriod = true →
        (∀ c, (s.cancels c).id? ≠ some m.tnId) →
        (s.pending k).map TimerNode.tnId = [m.tnId]) ∧
      s.handledLate = [] := by
  have hsound := TimerSystem.sound_of_reach h
  have hfew : s.tmCount ≤ 2 ^ 32 := Nat.le_of_lt few
  refine ⟨?_, ?_, ?_, hsound.punctual.handled hfew⟩
  · have hnodup := hsound.nodup hfew
    unfold TimerSystem.nodes at hnodup
    rw [List.map_append] at hnodup
    exact hnodup.of_append_right
  · intro k call m returned kind
    exact hsound.oneShot free settled returned kind
  · intro k call m returned kind never
    exact hsound.periodic free settled returned kind never

/-- Two one-shot timers and a periodic one are made, and the second is cancelled; then all three
expire. -/
def threeTimers : List TimerAction :=
  .flatten [[.start], runCall 0 (.runAfter 0 false) 0, runCall 1 (.runAfter 1 true) 0,
    runCall 2 (.runAfter 2 false) 0,
    [.cancel 0 2, .cancelStep 0, .cancelStep 0, .cancelStep 0],
    expiry ⟨0, 0, 0, 0, false, false, 0⟩ 0,
    expiry ⟨1000000, 1, 1, 0, true, false, 1⟩ 1000000,
    [.tick 2000000, .tick 2000000, .tick 2000000,
      .tickTop ⟨2000000, 2, 2, 0, false, false, 2⟩ 2000000, .tick 2000000, .tick 2000000]]

/-- The first was posted, the second dropped. -/
theorem timers_after_expiry :
    ∃ s, run TimerSystem.step .init threeTimers = some s ∧
      (s.tmQueue.map TimerNode.tnId).Nodup ∧
      s.OneShot 0 ⟨0, 0, 0, 0, false, false, 0⟩ ∧
      s.OneShot 2 ⟨2000000, 2, 2, 0, false, false, 2⟩ ∧ s.handledLate = [] := by
  have hrun : (run TimerSystem.step .init threeTimers).isSome := by decide +kernel
  have hend : ∀ t ∈ run TimerSystem.step .init threeTimers,
      t.tmCount < 2 ^ 32 ∧ t.tmMutex = none ∧ t.tick.betweenUnlockAndPost = false ∧
      t.calls 0 = .returned (.runAfter 0 false) ⟨0, 0, 0, 0, false, false, 0⟩ ∧
      t.calls 2 = .returned (.runAfter 2 false) ⟨2000000, 2, 2, 0, false, false, 2⟩ := by
    decide +kernel
  obtain ⟨s, hs⟩ := Option.isSome_iff_exists.mp hrun
  obtain ⟨few, free, settled, hfirst, hsecond⟩ := hend s hs
  have hkept := timer_nodes_conserved (reach_of_run hs) few free settled
  exact ⟨s, hs, hkept.1, hkept.2.1 0 _ _ hfirst rfl, hkept.2.1 2 _ _ hsecond rfl, hkept.2.2.2⟩

end ConcurrentServer.Timer
