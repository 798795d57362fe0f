import ConcurrentServer.Timer.TimerStep

/-!
# Ids, the table and cancellation

`src/timer/timer.h:60–121`, `src/timer/hash_map.h`. As long as `tm_id` has not wrapped around,
no two calls of run functions get one id, and an id that was in use when it was cancelled is
never in the table again.
-/

namespace ConcurrentServer.Timer
open ConcurrentServer.Base

namespace TimerSystem

variable {s t : TimerSystem} {a : TimerAction}

/-- The node of a call has the call's id. -/
@[simp] theorem tnId_node (call : RunCall) (k : Nat) (id now : Int) :
    (call.node k id now).tnId = id := by
  cases call <;> rfl

/-- Only `fetch_add` changes the counter. -/
theorem Step.tmCount_le (hstep : Step s a t) : s.tmCount ≤ t.tmCount := by
  cases hstep with
  | fetchAdd k now call at_ => exact Nat.le_succ _
  | _ => exact Nat.le_refl _

/-- An entered id is the id of the call. -/
theorem id?_of_entered? {pc : RunPc} {id : Int} (h : pc.entered? = some id) :
    pc.id? = some id := by
  cases pc with
  | idle | fetchAdd call | emplace call id => cases h
  | _ => exact h

/-- A call keeps the id that it has got. -/
theorem Step.id (hstep : Step s a t) {k : Nat} {id : Int} (h : (s.calls k).id? = some id) :
    (t.calls k).id? = some id := by
  cases hstep with
  | run k' call at_ | fetchAdd k' now call at_ =>
    apply apply_update_of_keeps h
    intro hid
    rw [at_] at hid
    cases hid
  | emplace k' now call id' at_ =>
    apply apply_update_of_keeps h
    intro hid
    rw [at_] at hid
    rw [← hid]
    exact congrArg some (tnId_node ..)
  | lockCall k' now call n at_ free | push k' now call n at_ | notifyCall k' now call n at_
  | unlockCall k' now call n at_ =>
    apply apply_update_of_keeps h
    intro hid
    rw [at_] at hid
    exact hid
  | _ => exact h

/-! ### Numbering -/

/-- No two calls have got the id. -/
def Unique (s : TimerSystem) (id : Int) : Prop :=
  ∀ k k', (s.calls k).id? = some id → (s.calls k').id? = some id → k = k'

/-- An id that no two calls have got was got by no two calls before. -/
theorem Step.unique (hstep : Step s a t) {id : Int} (h : t.Unique id) : s.Unique id := by
  intro k k' hk hk'
  exact h k k' (hstep.id hk) (hstep.id hk')

/-- The ids of the calls are values of the counter, different ones unless it wraps around, and
those past their entry are the ones that were entered into the table. -/
structure Numbered (s : TimerSystem) : Prop where
  counted : ∀ k id, (s.calls k).id? = some id → ∃ i < s.tmCount, id = counter32 i
  distinct : s.tmCount ≤ 2 ^ 32 → ∀ id, s.Unique id
  entered : ∀ id, id ∈ s.emplaced ↔ ∃ k, (s.calls k).entered? = some id

/-- Before the first step. -/
theorem numbered_init : init.Numbered := by
  constructor
  · intro k id h
    cases h
  · intro _ id k k' h
    cases h
  · intro id
    constructor
    · intro h
      cases h
    · rintro ⟨k, h⟩
      cases h

/-- The numbering depends on the ids of the calls, the counter and the entries only. -/
theorem Numbered.congr (h : s.Numbered) (id : ∀ k, (t.calls k).id? = (s.calls k).id?)
    (entered : ∀ k, (t.calls k).entered? = (s.calls k).entered?)
    (tmCount : t.tmCount = s.tmCount) (emplaced : t.emplaced = s.emplaced) : t.Numbered := by
  constructor
  · intro k i hk
    rw [id] at hk
    rw [tmCount]
    exact h.counted k i hk
  · intro few i k k' hk hk'
    rw [id] at hk hk'
    rw [tmCount] at few
    exact h.distinct few i k k' hk hk'
  · intro i
    simp only [emplaced, entered]
    exact h.entered i

/-- A call moves on with its id. -/
theorem Numbered.move (h : s.Numbered) {k : Nat} {pc : RunPc}
    (calls : t.calls = Function.update s.calls k pc) (id : pc.id? = (s.calls k).id?)
    (entered : pc.entered? = (s.calls k).entered?) (tmCount : t.tmCount = s.tmCount)
    (emplaced : t.emplaced = s.emplaced) : t.Numbered := by
  apply h.congr _ _ tmCount emplaced
  · rw [calls]
    exact apply_update_of_same RunPc.id? id
  · rw [calls]
    exact apply_update_of_same RunPc.entered? entered

/-- A new id. -/
theorem Numbered.fetchAdd (h : s.Numbered) {k : Nat} {call : RunCall}
    (at_ : s.calls k = .fetchAdd call)
    (calls : t.calls = Function.update s.calls k (.emplace call (counter32 s.tmCount)))
    (tmCount : t.tmCount = s.tmCount + 1) (emplaced : t.emplaced = s.emplaced) : t.Numbered := by
  have hid (k' : Nat) : (t.calls k').id? =
      if k' = k then some (counter32 s.tmCount) else (s.calls k').id? := by
    rw [calls]
    by_cases hk : k' = k
    · rw [if_pos hk, hk, Function.update_self]
      rfl
    · rw [if_neg hk, Function.update_of_ne hk]
  have hfresh (few : s.tmCount + 1 ≤ 2 ^ 32) (k' : Nat) :
      (s.calls k').id? ≠ some (counter32 s.tmCount) := by
    intro hk'
    obtain ⟨i, hi, heq⟩ := h.counted k' _ hk'
    have hnum := counter32_inj (by omega) (by omega) heq
    omega
  constructor
  · intro k' id hk'
    rw [hid] at hk'
    rw [tmCount]
    split at hk'
    · cases hk'
      exact ⟨s.tmCount, Nat.lt_succ_self _, rfl⟩
    · obtain ⟨i, hi, heq⟩ := h.counted k' id hk'
      exact ⟨i, Nat.lt_succ_of_lt hi, heq⟩
  · intro few id k₁ k₂ h₁ h₂
    rw [tmCount] at few
    rw [hid] at h₁ h₂
    split at h₁
    · split at h₂
      · omega
      · rw [← h₁] at h₂
        exact absurd h₂ (hfresh few k₂)
    · split at h₂
      · rw [← h₂] at h₁
        exact absurd h₁ (hfresh few k₁)
      · exact h.distinct (by omega) id k₁ k₂ h₁ h₂
  · intro id
    have hsame (k' : Nat) : (t.calls k').entered? = (s.calls k').entered? := by
      rw [calls]
      exact apply_update_of_same RunPc.entered? (by rw [at_]; rfl) k'
    simp only [emplaced, hsame]
    exact h.entered id

/-- A new entry. -/
theorem Numbered.emplace (h : s.Numbered) {k : Nat} {call : RunCall} {id now : Int}
    (at_ : s.calls k = .emplace call id)
    (calls : t.calls = Function.update s.calls k (.lock call (call.node k id now)))
    (tmCount : t.tmCount = s.tmCount) (emplaced : t.emplaced = s.emplaced ++ [id]) :
    t.Numbered := by
  have hid (k' : Nat) : (t.calls k').id? = (s.calls k').id? := by
    rw [calls]
    exact apply_update_of_same RunPc.id? (by rw [at_]; exact congrArg some (tnId_node ..)) k'
  have hentered (k' : Nat) : (t.calls k').entered? =
      if k' = k then some id else (s.calls k').entered? := by
    rw [calls]
    by_cases hk : k' = k
    · rw [if_pos hk, hk, Function.update_self]
      exact congrArg some (tnId_node ..)
    · rw [if_neg hk, Function.update_of_ne hk]
  constructor
  · intro k' i hk'
    rw [hid] at hk'
    rw [tmCount]
    exact h.counted k' i hk'
  · intro few i k₁ k₂ h₁ h₂
    rw [hid] at h₁ h₂
    rw [tmCount] at few
    exact h.distinct few i k₁ k₂ h₁ h₂
  · intro i
    rw [emplaced, List.mem_append, List.mem_singleton, h.entered i]
    constructor
    · intro hor
      cases hor with
      | inl hold =>
        obtain ⟨k', hk'⟩ := hold
        refine ⟨k', ?_⟩
        rw [hentered, if_neg]
        · exact hk'
        · intro hk
          rw [hk, at_] at hk'
          cases hk'
      | inr hnew =>
        refine ⟨k, ?_⟩
        rw [hentered, if_pos rfl, hnew]
    · rintro ⟨k', hk'⟩
      rw [hentered] at hk'
      split at hk'
      · exact Or.inr (Option.some.inj hk').symm
      · exact Or.inl ⟨k', hk'⟩

/-- Every step. -/
theorem Numbered.step (h : s.Numbered) (hstep : Step s a t) : t.Numbered := by
  cases hstep with
  | run k call at_ | lockCall k now call n at_ free | push k now call n at_
  | notifyCall k now call n at_ | unlockCall k now call n at_ =>
    exact h.move rfl (by rw [at_]; rfl) (by rw [at_]; rfl) rfl rfl
  | fetchAdd k now call at_ => exact h.fetchAdd at_ rfl rfl rfl
  | emplace k now call id at_ => exact h.emplace at_ rfl rfl rfl
  | _ => exact ⟨h.counted, h.distinct, h.entered⟩

/-! ### The table -/

/-- An entered id is missing from the table only when a call of `cancel` has erased it, and what
a call of `cancel` has dealt with does not come back. -/
structure Table (s : TimerSystem) : Prop where
  missing : ∀ k id, (s.calls k).entered? = some id → s.tmIdStateMap.isKeyExist id = false →
    id ∈ s.erased
  erased : ∀ id ∈ s.erased, ∃ c, (s.cancels c).id? = some id
  known : ∀ c id, (s.cancels c).known? = some id → id ∈ s.emplaced
  gone : ∀ c id, s.Unique id → (s.cancels c).known? = some id →
    (s.cancels c).over? = some id → s.tmIdStateMap.isKeyExist id = false
  cancelled : ∀ id ∈ s.cancelled, ∃ c, (s.cancels c).known? = some id ∧
    (s.cancels c).over? = some id

/-- Before the first step. -/
theorem table_init : init.Table := by
  constructor
  · intro k id h
    cases h
  · intro id h
    cases h
  · intro c id h
    cases h
  · intro c id _ h
    cases h
  · intro id h
    cases h

/-- The table, when neither it nor the calls of `cancel` move. -/
theorem Table.congr (h : s.Table) (entered : ∀ k, (t.calls k).entered? = (s.calls k).entered?)
    (map : t.tmIdStateMap = s.tmIdStateMap) (cancels : t.cancels = s.cancels)
    (emplaced : t.emplaced = s.emplaced) (erased : t.erased = s.erased)
    (cancelled : t.cancelled = s.cancelled) (unique : ∀ id, t.Unique id → s.Unique id) :
    t.Table := by
  constructor
  · intro k id
    rw [entered, map, erased]
    exact h.missing k id
  · rw [erased, cancels]
    exact h.erased
  · intro c id
    rw [cancels, emplaced]
    exact h.known c id
  · intro c id hu
    rw [cancels, map]
    exact h.gone c id (unique id hu)
  · rw [cancelled, cancels]
    exact h.cancelled

/-- A new entry; the id is not one that was in use before. -/
theorem Table.emplace (h : s.Table) (hn : s.Numbered) {k : Nat} {call : RunCall} {id now : Int}
    (at_ : s.calls k = .emplace call id)
    (calls : t.calls = Function.update s.calls k (.lock call (call.node k id now)))
    (map : t.tmIdStateMap = s.tmIdStateMap.emplace id .running) (cancels : t.cancels = s.cancels)
    (emplaced : t.emplaced = s.emplaced ++ [id]) (erased : t.erased = s.erased)
    (cancelled : t.cancelled = s.cancelled) (unique : ∀ id, t.Unique id → s.Unique id) :
    t.Table := by
  constructor
  · intro k' id' hk' habsent
    rw [map, HashMap.isKeyExist_emplace, Bool.or_eq_false_iff, decide_eq_false_iff_not] at habsent
    rw [erased]
    apply h.missing k' id' _ habsent.2
    rw [calls] at hk'
    by_cases hk : k' = k
    · rw [hk, Function.update_self] at hk'
      have hid : id = id' := by
        rw [← tnId_node call k id now]
        exact Option.some.inj hk'
      exact absurd hid.symm habsent.1
    · rwa [Function.update_of_ne hk] at hk'
  · rw [erased, cancels]
    exact h.erased
  · intro c id' hc
    rw [cancels] at hc
    rw [emplaced]
    exact List.mem_append_left _ (h.known c id' hc)
  · intro c id' hu hknown hover
    rw [cancels] at hknown hover
    rw [map, HashMap.isKeyExist_emplace, h.gone c id' (unique id' hu) hknown hover, Bool.or_false,
      decide_eq_false_iff_not]
    intro hid
    obtain ⟨k', hk'⟩ := (hn.entered id').mp (h.known c id' hknown)
    have hsame : k' = k := by
      apply unique id' hu k' k (id?_of_entered? hk')
      rw [at_, hid]
      rfl
    rw [hsame, at_] at hk'
    cases hk'
  · rw [cancelled, cancels]
    exact h.cancelled

/-- A call of `cancel` moves on and erases nothing but its id. -/
theorem Table.moveCancel (h : s.Table) {c : Nat} {pc : CancelPc}
    (calls : t.calls = s.calls)
    (keeps : ∀ id, s.tmIdStateMap.isKeyExist id = false → t.tmIdStateMap.isKeyExist id = false)
    (erases : ∀ id, t.tmIdStateMap.isKeyExist id = false →
      s.tmIdStateMap.isKeyExist id = false ∨ id ∈ t.erased)
    (erased : ∀ id ∈ t.erased, id ∈ s.erased ∨ pc.id? = some id)
    (kept : s.erased ⊆ t.erased)
    (asked : ∀ id, (s.cancels c).id? = some id → pc.id? = some id)
    (cancels : t.cancels = Function.update s.cancels c pc) (emplaced : t.emplaced = s.emplaced)
    (known : ∀ id, pc.known? = some id → id ∈ s.emplaced)
    (dealt : ∀ id, (s.cancels c).over? = some id → pc.over? = some id)
    (still : ∀ id, (s.cancels c).known? = some id → pc.known? = some id)
    (gone : ∀ id, s.Unique id → pc.known? = some id → pc.over? = some id →
      t.tmIdStateMap.isKeyExist id = false)
    (cancelled : ∀ id ∈ t.cancelled, id ∈ s.cancelled ∨
      pc.known? = some id ∧ pc.over? = some id) : t.Table := by
  have hself : t.cancels c = pc := by rw [cancels, Function.update_self]
  have hother (c' : Nat) (hc : c' ≠ c) : t.cancels c' = s.cancels c' := by
    rw [cancels, Function.update_of_ne hc]
  constructor
  · intro k id hk habsent
    rw [calls] at hk
    cases erases id habsent with
    | inl hold => exact kept (h.missing k id hk hold)
    | inr hnew => exact hnew
  · intro id hid
    cases erased id hid with
    | inl hold =>
      obtain ⟨c', hc'⟩ := h.erased id hold
      refine ⟨c', ?_⟩
      by_cases hc : c' = c
      · rw [hc] at hc' ⊢
        rw [hself]
        exact asked id hc'
      · rw [hother c' hc]
        exact hc'
    | inr hnew =>
      refine ⟨c, ?_⟩
      rw [hself]
      exact hnew
  · intro c' id hc'
    rw [emplaced]
    by_cases hc : c' = c
    · rw [hc, hself] at hc'
      exact known id hc'
    · rw [hother c' hc] at hc'
      exact h.known c' id hc'
  · intro c' id hu hknown hover
    unfold Unique at hu
    rw [calls] at hu
    by_cases hc : c' = c
    · rw [hc, hself] at hknown hover
      exact gone id hu hknown hover
    · rw [hother c' hc] at hknown hover
      exact keeps id (h.gone c' id hu hknown hover)
  · intro id hid
    cases cancelled id hid with
    | inl hold =>
      obtain ⟨c', hknown, hover⟩ := h.cancelled id hold
      refine ⟨c', ?_⟩
      by_cases hc : c' = c
      · rw [hc] at hknown hover ⊢
        rw [hself]
        exact ⟨still id hknown, dealt id hover⟩
      · rw [hother c' hc]
        exact ⟨hknown, hover⟩
    | inr hnew =>
      refine ⟨c, ?_⟩
      rw [hself]
      exact hnew

/-- A new call of `cancel`. -/
theorem Table.cancel (h : s.Table) {c : Nat} {id : Int} (at_ : s.cancels c = .idle) :
    (s.setCancel c (.test id (s.emplaced.contains id))).Table := by
  refine h.moveCancel (c := c) rfl (fun _ hid ↦ hid) (fun _ hid ↦ Or.inl hid)
    (fun _ hid ↦ Or.inl hid) (List.Subset.refl _) ?_ rfl rfl
    ?_ ?_ ?_ ?_ (fun _ hid ↦ Or.inl hid)
  · intro id' hid'
    rw [at_] at hid'
    cases hid'
  · intro id' hid'
    cases hmem : s.emplaced.contains id with
    | false =>
      rw [hmem] at hid'
      cases hid'
    | true =>
      rw [hmem] at hid'
      cases hid'
      exact List.contains_iff_mem.mp hmem
  · intro id' hid'
    rw [at_] at hid'
    cases hid'
  · intro id' hid'
    rw [at_] at hid'
    cases hid'
  · intro id' _ hknown hover
    cases hover

/-- The test of `cancel`. -/
theorem Table.cancelTest (h : s.Table) {c : Nat} {id : Int} {known : Bool}
    (at_ : s.cancels c = .test id known) :
    (s.setCancel c
      (if s.tmIdStateMap.isKeyExist id then .erase id known else .ret id known)).Table := by
  refine h.moveCancel (c := c) rfl (fun _ hid ↦ hid) (fun _ hid ↦ Or.inl hid)
    (fun _ hid ↦ Or.inl hid) (List.Subset.refl _) ?_ rfl rfl
    ?_ ?_ ?_ ?_ (fun _ hid ↦ Or.inl hid)
  · intro id' hid'
    rw [at_] at hid'
    split <;> exact hid'
  · intro id' hid'
    apply h.known c id'
    rw [at_]
    split at hid' <;> exact hid'
  · intro id' hid'
    rw [at_] at hid'
    cases hid'
  · intro id' hid'
    rw [at_] at hid'
    split <;> exact hid'
  · intro id' _ hknown hover
    split at hover
    · cases hover
    · rename_i habsent
      cases hover
      exact Bool.eq_false_of_not_eq_true habsent

/-- The erasure of `cancel`. -/
theorem Table.cancelErase (h : s.Table) {c : Nat} {id : Int} {known : Bool}
    (at_ : s.cancels c = .erase id known) :
    { s.setCancel c (.ret id known) with
      tmIdStateMap := s.tmIdStateMap.erase id
      erased := s.erased ++ [id] }.Table := by
  refine h.moveCancel (c := c) rfl ?_ ?_ ?_ (List.subset_append_left _ _) ?_ rfl rfl
    ?_ ?_ ?_ ?_ (fun _ hid ↦ Or.inl hid)
  · intro id' hid'
    show (s.tmIdStateMap.erase id).isKeyExist id' = false
    rw [HashMap.isKeyExist_erase, hid', Bool.and_false]
  · intro id' hid'
    have herase : (s.tmIdStateMap.erase id).isKeyExist id' = false := hid'
    rw [HashMap.isKeyExist_erase, Bool.and_eq_false_iff, decide_eq_false_iff_not] at herase
    cases herase with
    | inl heq =>
      right
      rw [Decidable.not_not.mp heq]
      exact List.mem_append_right _ (List.mem_singleton.mpr rfl)
    | inr habsent => exact Or.inl habsent
  · intro id' hid'
    apply (List.mem_append.mp hid').imp_right
    intro hmem
    rw [List.mem_singleton.mp hmem]
    rfl
  · intro id' hid'
    rw [at_] at hid'
    exact hid'
  · intro id' hid'
    apply h.known c id'
    rw [at_]
    exact hid'
  · intro id' hid'
    rw [at_] at hid'
    cases hid'
  · intro id' hid'
    rw [at_] at hid'
    exact hid'
  · intro id' _ hknown hover
    cases hover
    show (s.tmIdStateMap.erase id).isKeyExist id = false
    simp

/-- The return of `cancel`. -/
theorem Table.cancelRet (h : s.Table) {c : Nat} {id : Int} {known : Bool}
    (at_ : s.cancels c = .ret id known) :
    { s.setCancel c (.returned id known) with
      cancelled := if known then s.cancelled ++ [id] else s.cancelled }.Table := by
  refine h.moveCancel (c := c) rfl (fun _ hid ↦ hid) (fun _ hid ↦ Or.inl hid)
    (fun _ hid ↦ Or.inl hid) (List.Subset.refl _) ?_ rfl rfl ?_ ?_ ?_ ?_ ?_
  · intro id' hid'
    rw [at_] at hid'
    exact hid'
  · intro id' hid'
    apply h.known c id'
    rw [at_]
    exact hid'
  · intro id' hid'
    rw [at_] at hid'
    exact hid'
  · intro id' hid'
    rw [at_] at hid'
    exact hid'
  · intro id' hu hknown hover
    apply h.gone c id' hu
    · rw [at_]
      exact hknown
    · rw [at_]
      exact hover
  · intro id' hid'
    have hmem : id' ∈ if known then s.cancelled ++ [id] else s.cancelled := hid'
    split at hmem
    · rename_i hknown
      rw [List.mem_append, List.mem_singleton] at hmem
      apply hmem.imp_right
      intro heq
      rw [hknown, heq]
      exact ⟨rfl, rfl⟩
    · exact Or.inl hmem

/-- Every step. -/
theorem Table.step (h : s.Table) (hn : s.Numbered) (hstep : Step s a t) : t.Table := by
  have unique (id : Int) (hu : t.Unique id) : s.Unique id := hstep.unique hu
  cases hstep with
  | run k call at_ | fetchAdd k now call at_ | lockCall k now call n at_ free
  | push k now call n at_ | notifyCall k now call n at_ | unlockCall k now call n at_ =>
    exact h.congr (apply_update_of_same RunPc.entered? (by rw [at_]; rfl)) rfl rfl rfl rfl rfl
      unique
  | emplace k now call id at_ => exact h.emplace hn at_ rfl rfl rfl rfl rfl rfl unique
  | cancel c id at_ => exact h.cancel at_
  | cancelTest c id known at_ => exact h.cancelTest at_
  | cancelErase c id known at_ => exact h.cancelErase at_
  | cancelRet c id known at_ => exact h.cancelRet at_
  | _ => exact ⟨h.missing, h.erased, h.known, h.gone, h.cancelled⟩

/-! ### Nodes popped after their cancellation -/

/-- The id of the node that was popped after its id had been cancelled, before it is looked up. -/
def lateId? : TickPc → Option Int
  | .isKeyExist n true => some n.tnId
  | _ => none

/-- A node that was popped after its cancellation has passed the look-up. -/
def passedLate : TickPc → Bool
  | .rearm _ late | .unlock _ late | .post _ late | .emplace _ late => late
  | _ => false

/-- A node popped after its id was cancelled does not pass the look-up, and so is neither
re-armed nor posted. -/
structure Punctual (s : TimerSystem) : Prop where
  late : ∀ id, lateId? s.tick = some id → id ∈ s.cancelled
  passed : s.tmCount ≤ 2 ^ 32 → passedLate s.tick = false
  handled : s.tmCount ≤ 2 ^ 32 → s.handledLate = []

/-- A cancelled id is not in the table. -/
theorem Table.not_exist (h : s.Table) {id : Int} (unique : s.Unique id) (hid : id ∈ s.cancelled) :
    s.tmIdStateMap.isKeyExist id = false := by
  obtain ⟨c, hknown, hover⟩ := h.cancelled id hid
  exact h.gone c id unique hknown hover

/-- Before the first step. -/
theorem punctual_init : init.Punctual := by
  refine ⟨?_, fun _ ↦ rfl, fun _ ↦ rfl⟩
  intro id h
  cases h

@[simp] theorem lateId?_notified (pc : TickPc) : lateId? pc.notified = lateId? pc := by
  cases pc <;> rfl

@[simp] theorem passedLate_notified (pc : TickPc) : passedLate pc.notified = passedLate pc := by
  cases pc <;> rfl

/-- The moves of the tick thread. -/
theorem Punctual.tickMove (h : s.Punctual) (hn : s.Numbered) (ht : s.Table) {pc : TickPc}
    {holder : Option Holder} (move : TickMove s pc holder) : (s.setTick pc holder).Punctual := by
  refine ⟨?_, ?_, h.handled⟩
  · intro id hid
    cases move <;> cases hid
  · intro few
    have hpassed := h.passed few
    cases move with
    | found n late at_ key =>
      cases late with
      | false => rfl
      | true =>
        have habsent := ht.not_exist (hn.distinct few n.tnId) (h.late n.tnId (by rw [at_]; rfl))
        rw [key] at habsent
        cases habsent
    | unlock callback late at_ =>
      rw [at_] at hpassed
      exact hpassed
    | post callback late at_ =>
      rw [at_] at hpassed
      exact hpassed
    | _ => rfl

/-- Every step. -/
theorem Punctual.step (h : s.Punctual) (hn : s.Numbered) (ht : s.Table) (hstep : Step s a t) :
    t.Punctual := by
  have few_of (few : t.tmCount ≤ 2 ^ 32) : s.tmCount ≤ 2 ^ 32 := by
    have hle := hstep.tmCount_le
    omega
  cases hstep with
  | fetchAdd k now call at_ => exact ⟨h.late, fun few ↦ h.passed (few_of few),
      fun few ↦ h.handled (few_of few)⟩
  | notifyCall | notifyTick =>
    refine ⟨?_, ?_, h.handled⟩
    · intro id hid
      rw [show _ = lateId? s.tick from lateId?_notified s.tick] at hid
      exact h.late id hid
    · intro few
      rw [show _ = passedLate s.tick from passedLate_notified s.tick]
      exact h.passed few
  | cancelRet c id known at_ =>
    refine ⟨?_, h.passed, h.handled⟩
    intro id' hid'
    have hmem := h.late id' hid'
    show id' ∈ if known then s.cancelled ++ [id] else s.cancelled
    split
    · exact List.mem_append_left _ hmem
    · exact hmem
  | tickMove a pc holder move => exact h.tickMove hn ht move
  | pop now n at_ =>
    refine ⟨?_, fun _ ↦ rfl, h.handled⟩
    intro id hid
    cases hmem : s.cancelled.contains n.tnId with
    | false =>
      rw [hmem] at hid
      cases hid
    | true =>
      rw [hmem] at hid
      cases hid
      exact List.contains_iff_mem.mp hmem
  | drop now n late at_ key =>
    refine ⟨?_, fun _ ↦ rfl, h.handled⟩
    intro id hid
    cases hid
  | rearm now n late at_ =>
    refine ⟨?_, ?_, ?_⟩
    · intro id hid
      cases hid
    · intro few
      have hpassed := h.passed few
      rw [at_] at hpassed
      exact hpassed
    · intro few
      have hpassed := h.passed few
      rw [at_] at hpassed
      show (if late && (n.rearmed now).isSome then s.handledLate ++ [n.tnCallback]
        else s.handledLate) = []
      rw [show late = false from hpassed]
      exact h.handled few
  | postTask now callback late pool at_ emplaced =>
    refine ⟨?_, fun _ ↦ rfl, ?_⟩
    · intro id hid
      cases hid
    · intro few
      have hpassed := h.passed few
      rw [at_] at hpassed
      show (if late then s.handledLate ++ [callback] else s.handledLate) = []
      rw [show late = false from hpassed]
      exact h.handled few
  | notify who pool at_ notified =>
    refine ⟨?_, fun _ ↦ rfl, h.handled⟩
    intro id hid
    cases hid
  | _ => exact ⟨h.late, h.passed, h.handled⟩

end TimerSystem

end ConcurrentServer.Timer
