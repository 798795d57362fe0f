import ConcurrentServer.Log.PopOnce

/-!
# Pops that return without an item

`src/log/log_queue.h:153–214`. Beside the run stands the size that each `pop` saw when it last held
`b_mutex`. `pop(item)` tests the size again after its wait. `pop(item, ms_timeout)` returns `false`
on a timeout without a test, although a `push` may have come between the timeout and the mutex.
-/

namespace ConcurrentServer.Log
open ConcurrentServer.Base

variable {T : Type}

/-- The call that holds `b_mutex` in the action. -/
def QueueAction.holder : QueueAction T → Option Nat
  | .pop c _ | .block c | .wake c | .timeout c => some c
  | .push _ | .clear | .notify => none

namespace QueueCalls

/-- The sizes that the calls saw. -/
def noteSize (_ : QueueCalls T) (a : QueueAction T) (t : QueueCalls T) (g : Nat → Option Int) :
    Nat → Option Int :=
  match a.holder with
  | some c => Function.update g c (some t.queue.bSize)
  | none => g

/-- A `pop` that returned `false` had found the queue empty when it last held the mutex. -/
def FoundEmpty (s : QueueCalls T × (Nat → Option Int)) : Prop :=
  ∀ c, s.1.pops c = .returned none → s.2 c = some 0

/-- When a wait reports a timeout, no item has come in the meantime. -/
def TimesOutEmpty (s : QueueCalls T × (Nat → Option Int)) : QueueAction T → Prop
  | .timeout _ => s.1.queue.bSize ≤ 0
  | .push _ | .clear | .notify | .pop _ _ | .block _ | .wake _ => True

instance (s : QueueCalls T × (Nat → Option Int)) (a : QueueAction T) :
    Decidable (TimesOutEmpty s a) := by
  cases a with
  | timeout => exact inferInstanceAs (Decidable (s.1.queue.bSize ≤ 0))
  | push | clear | notify | pop | block | wake => exact inferInstanceAs (Decidable True)

variable {s t : QueueCalls T} {a : QueueAction T}

/-- A call that has returned does not hold the mutex any more. -/
theorem holder_ne_of_returned {c : Nat} {got : Option T} (hstep : s.step a = some t)
    (hc : s.pops c = .returned got) : a.holder ≠ some c := by
  intro hholder
  cases a with
  | push | clear | notify => cases hholder
  | pop | block | wake | timeout =>
    cases hholder
    rw [step, hc] at hstep
    cases hstep

/-- Who moved, if a call returns `false` now. -/
theorem false_of_update {c d : Nat} {pc : PopPc T} (hbefore : s.pops c ≠ .returned none)
    (hafter : Function.update s.pops d pc c = .returned none) : d = c ∧ pc = .returned none := by
  by_cases hcd : c = d
  · rw [hcd, Function.update_self] at hafter
    exact ⟨hcd.symm, hafter⟩
  · rw [Function.update_of_ne hcd] at hafter
    exact absurd hafter hbefore

/-- A call returns `false` holding the mutex, without a change of the queue, and without an item in
it unless its wait reports a timeout. -/
theorem false_of_step {c : Nat} (hstep : s.step a = some t) (hbefore : s.pops c ≠ .returned none)
    (hafter : t.pops c = .returned none) :
    a.holder = some c ∧ t.queue = s.queue ∧ (a ≠ .timeout c → s.queue.bSize ≤ 0) := by
  cases a with
  | push item =>
    simp only [step, Option.ite_none_right_eq_some, Option.some.injEq] at hstep
    rw [← hstep.2] at hafter
    exact absurd (notify_eq_returned.mp hafter) hbefore
  | clear =>
    simp only [step, Option.ite_none_right_eq_some, Option.some.injEq] at hstep
    rw [← hstep.2] at hafter
    exact absurd hafter hbefore
  | notify =>
    cases hstep
    exact absurd (notify_eq_returned.mp hafter) hbefore
  | pop d timed =>
    simp only [step] at hstep
    split at hstep
    · simp only [Option.ite_none_right_eq_some] at hstep
      have hrest := hstep.2
      split at hrest
      · cases hrest
        cases (false_of_update hbefore hafter).2
      · cases hrest
        cases (false_of_update hbefore hafter).2
    · cases hstep
  | block d =>
    simp only [step] at hstep
    split at hstep
    · cases hstep
      cases (false_of_update hbefore hafter).2
    · cases hstep
  | wake d =>
    simp only [step] at hstep
    split at hstep
    · simp only [Option.ite_none_right_eq_some, Option.some.injEq] at hstep
      rw [← hstep.2] at hafter ⊢
      unfold retest at hafter ⊢
      split at hafter
      · next hsize =>
        obtain ⟨rfl, -⟩ := false_of_update hbefore hafter
        rw [if_pos hsize]
        exact ⟨rfl, rfl, fun _ ↦ hsize⟩
      · cases (false_of_update hbefore hafter).2
    · cases hstep
  | timeout d =>
    simp only [step] at hstep
    split at hstep
    · simp only [Option.ite_none_right_eq_some, Option.some.injEq] at hstep
      rw [← hstep.2] at hafter ⊢
      obtain ⟨rfl, -⟩ := false_of_update hbefore hafter
      exact ⟨rfl, rfl, fun hne ↦ absurd rfl hne⟩
    · cases hstep

/-- A timeout makes its call return `false`. -/
theorem timeout_returns {c : Nat} (hstep : s.step (.timeout c) = some t) :
    t.pops c = .returned none ∧ t.queue = s.queue := by
  simp only [step] at hstep
  split at hstep
  · simp only [Option.ite_none_right_eq_some, Option.some.injEq] at hstep
    rw [← hstep.2]
    exact ⟨Function.update_self .., rfl⟩
  · cases hstep

/-- A step leaves this so exactly when it reports no timeout beside an item. -/
theorem FoundEmpty.step_iff {g : Nat → Option Int} (h : FoundEmpty (s, g))
    (hnonneg : 0 ≤ s.queue.bSize) (hstep : s.step a = some t) :
    FoundEmpty (t, noteSize s a t g) ↔ TimesOutEmpty (s, g) a := by
  constructor
  · intro hfound
    cases a with
    | timeout c =>
      obtain ⟨hreturned, hqueue⟩ := timeout_returns hstep
      have hnote : Function.update g c (some t.queue.bSize) c = some 0 := hfound c hreturned
      rw [Function.update_self, hqueue, Option.some.injEq] at hnote
      exact Int.le_of_eq hnote
    | push | clear | notify | pop | block | wake => trivial
  · intro hempty c hc
    show noteSize s a t g c = some 0
    unfold noteSize
    by_cases hbefore : s.pops c = .returned none
    · have hother := holder_ne_of_returned hstep hbefore
      cases hholder : a.holder with
      | none => exact h c hbefore
      | some d =>
        have hcd : c ≠ d := by
          rintro rfl
          exact hother hholder
        show Function.update g d _ c = some 0
        rw [Function.update_of_ne hcd]
        exact h c hbefore
    · obtain ⟨hholder, hqueue, hsize⟩ := false_of_step hstep hbefore hc
      have hle : s.queue.bSize ≤ 0 := by
        by_cases htimeout : a = .timeout c
        · rw [htimeout] at hempty
          exact hempty
        · exact hsize htimeout
      rw [hholder]
      show Function.update g c (some t.queue.bSize) c = some 0
      rw [Function.update_self, hqueue, show s.queue.bSize = 0 by omega]

end QueueCalls

/-- On a fresh queue of any capacity, whatever calls run beside each other, as long as no wait
reports a timeout beside an item, every `pop` that returned `false` had found the queue empty when
it last held the mutex. The next step leaves this so exactly when it is no such report. -/
theorem false_pops_found_empty {cells : Int → T} {capacity : Int} {debug : Bool}
    {s : QueueCalls T × (Nat → Option Int)} (hcap : 1 ≤ capacity)
    (h : ReachBy (withHistory QueueCalls.step QueueCalls.noteSize) QueueCalls.TimesOutEmpty
      (.init (.fresh cells capacity debug), fun _ ↦ none) s) :
    QueueCalls.FoundEmpty s ∧
      ∀ a t, withHistory QueueCalls.step QueueCalls.noteSize s a = some t →
        (QueueCalls.FoundEmpty t ↔ QueueCalls.TimesOutEmpty s a) := by
  have hmove : ∀ (s t : QueueCalls T × (Nat → Option Int)) (a : QueueAction T),
      (∃ l, s.1.Refines capacity debug l) → QueueCalls.FoundEmpty s →
      withHistory QueueCalls.step QueueCalls.noteSize s a = some t →
        (QueueCalls.FoundEmpty t ↔ QueueCalls.TimesOutEmpty s a) := by
    rintro ⟨s, g⟩ ⟨t, g'⟩ a ⟨l, hl⟩ hfound hstep
    obtain ⟨hmoved, hnote⟩ := withHistory_eq_some.mp hstep
    rw [show g' = QueueCalls.noteSize s a t g from hnote]
    exact hfound.step_iff hl.holds.size.1 hmoved
  have hinv : (∃ l, s.1.Refines capacity debug l) ∧ QueueCalls.FoundEmpty s := by
    apply h.invariant
      (P := fun s ↦ (∃ l, s.1.Refines capacity debug l) ∧ QueueCalls.FoundEmpty s)
    · refine ⟨⟨[], QueueCalls.refines_init hcap⟩, ?_⟩
      intro c hc
      cases hc
    · intro s a t hs hok hstep
      obtain ⟨⟨l, hl⟩, hfound⟩ := hs
      exact ⟨hl.step (withHistory_eq_some.mp hstep).1, (hmove s t a ⟨l, hl⟩ hfound hstep).mpr hok⟩
  exact ⟨hinv.2, fun a t hstep ↦ hmove s t a hinv.1 hinv.2 hstep⟩

/-- A wait times out on an empty queue, another one ends without reason. -/
def waitsInVain : List (QueueAction Nat) :=
  [.pop 0 true, .block 0, .timeout 0, .pop 1 false, .block 1, .wake 1, .push 7]

/-- Both calls of that run found the queue empty. -/
theorem found_empty_after_waits_in_vain :
    ∃ s, run (withHistory QueueCalls.step QueueCalls.noteSize)
        (.init (.fresh (fun _ ↦ 0) 1 false), fun _ ↦ none) waitsInVain = some s ∧
      QueueCalls.FoundEmpty s ∧
        ∀ a t, withHistory QueueCalls.step QueueCalls.noteSize s a = some t →
          (QueueCalls.FoundEmpty t ↔ QueueCalls.TimesOutEmpty s a) := by
  have hrun : (run (withHistory QueueCalls.step QueueCalls.noteSize)
      (.init (.fresh (fun _ ↦ 0) 1 false), fun _ ↦ none) waitsInVain).isSome := by
    decide +kernel
  obtain ⟨s, hs⟩ := Option.isSome_iff_exists.mp hrun
  exact ⟨s, hs, false_pops_found_empty (by decide) (reachBy_of_run hs (by decide +kernel))⟩

/-- An item is pushed while a wait times out: its call returns `false` from a queue that holds the
item. -/
theorem timeout_beside_item :
    ¬ ∀ s : QueueCalls Nat × (Nat → Option Int),
      Reach (withHistory QueueCalls.step QueueCalls.noteSize)
        (.init (.fresh (fun _ ↦ 0) 1 false), fun _ ↦ none) s → QueueCalls.FoundEmpty s := by
  intro h
  have hrun : ∃ s, run (withHistory QueueCalls.step QueueCalls.noteSize)
      (.init (.fresh (fun _ ↦ 0) 1 false), fun _ ↦ none)
      [.pop 0 true, .block 0, .push 7, .timeout 0] = some s ∧
        s.1.pops 0 = .returned none ∧ s.2 0 = some 1 := by
    refine ⟨_, rfl, ?_⟩
    decide +kernel
  obtain ⟨s, hs, hreturned, hsize⟩ := hrun
  rw [h s (reach_of_run hs) 0 hreturned] at hsize
  cases hsize

end ConcurrentServer.Log
