import Mathlib.Logic.Basic
import Mathlib.Order.WellFounded

/-!
# Runs of labelled step functions

Library `Base`. A system is a partial step function over states and actions; an action that
is not enabled has no successor. `ReachBy` collects the states of the runs whose steps all
meet a condition at the state they start from, and carries the invariant rule and the rule for
what holds once an event has happened. `run_keeps_iff` says when a run ends with a property that
cannot be regained, and `exists_step_of_run` finds the step at which it loses one. `Terminates`
says that every run ends, by a measure that each step lowers, and so leads to a state in which
nothing is enabled. `ReachBy.refine` and `ReachBy.extend` carry a simulation from steps to runs.
`withHistory` notes beside the state what its steps have done. `Throughout`
states a property of every step of a finite history of total operations.
-/

namespace ConcurrentServer.Base

universe u v

variable {σ : Type u} {α : Type v}

/-- The state after the given actions, or `none` when one of them is not enabled. -/
def run (step : σ → α → Option σ) : σ → List α → Option σ
  | s, [] => some s
  | s, a :: as => (step s a).bind fun t ↦ run step t as

/-- The states reached from `s₀` by steps that `ok` admits at the state they start from. -/
inductive ReachBy (step : σ → α → Option σ) (ok : σ → α → Prop) (s₀ : σ) : σ → Prop
  | refl : ReachBy step ok s₀ s₀
  | tail {s t : σ} (a : α) :
      ReachBy step ok s₀ s → ok s a → step s a = some t → ReachBy step ok s₀ t

/-- The states reached by any run. -/
abbrev Reach (step : σ → α → Option σ) (s₀ : σ) : σ → Prop :=
  ReachBy step (fun _ _ ↦ True) s₀

/-- What holds at the start and is kept by every admitted step holds in every reached state. -/
theorem ReachBy.invariant {step : σ → α → Option σ} {ok : σ → α → Prop} {s₀ s : σ}
    {P : σ → Prop} (h : ReachBy step ok s₀ s) (start : P s₀)
    (keep : ∀ s a t, P s → ok s a → step s a = some t → P t) : P s := by
  induction h with
  | refl => exact start
  | tail a _ hok hstep ih => exact keep _ a _ ih hok hstep

/-- What one step establishes when an event happens, and every later step keeps, holds in every
state reached after the event. -/
theorem ReachBy.after {step : σ → α → Option σ} {ok : σ → α → Prop} {s₀ s : σ}
    {E P : σ → Prop} (h : ReachBy step ok s₀ s) (start : ¬ E s₀)
    (enter : ∀ s a t, ReachBy step ok s₀ s → ¬ E s → ok s a → step s a = some t →
      E t → P t)
    (stay : ∀ s a t, ReachBy step ok s₀ s → E s → P s → step s a = some t → P t) :
    E s → P s := by
  induction h with
  | refl =>
    intro hafter
    exact absurd hafter start
  | @tail s t a hs hok hstep ih =>
    intro hafter
    by_cases hbefore : E s
    · exact stay s a t hs hbefore (ih hbefore) hstep
    · exact enter s a t hs hbefore hok hstep hafter

/-- A state that is reached under a condition is reached. -/
theorem ReachBy.reach {step : σ → α → Option σ} {ok : σ → α → Prop} {s₀ s : σ}
    (h : ReachBy step ok s₀ s) : Reach step s₀ s := by
  induction h with
  | refl => exact .refl
  | tail a _ _ hstep ih => exact ih.tail a trivial hstep

/-- If every step of one system is, seen through `f`, a step of another or nothing, then so is
what it reaches. -/
theorem ReachBy.simulate {τ : Type u} {β : Type v} {step : σ → α → Option σ}
    {step' : τ → β → Option τ} {ok : σ → α → Prop} {s₀ s : σ} (f : σ → τ)
    (h : ReachBy step ok s₀ s)
    (sim : ∀ s a t, step s a = some t → f t = f s ∨ ∃ b, step' (f s) b = some (f t)) :
    Reach step' (f s₀) (f s) := by
  induction h with
  | refl => exact .refl
  | @tail s t a _ _ hstep ih =>
    cases sim s a t hstep with
    | inl hsame =>
      rw [hsame]
      exact ih
    | inr hmove =>
      obtain ⟨b, hb⟩ := hmove
      exact ih.tail b trivial hb

/-- A run continues a run. -/
theorem ReachBy.trans {step : σ → α → Option σ} {ok : σ → α → Prop} {s₀ s t : σ}
    (h : ReachBy step ok s₀ s) (h' : ReachBy step ok s t) : ReachBy step ok s₀ t := by
  induction h' with
  | refl => exact h
  | tail a _ hok hstep ih => exact ih.tail a hok hstep

/-- Every action of the list is admitted at the state it starts from. -/
def Admits (step : σ → α → Option σ) (ok : σ → α → Prop) : σ → List α → Prop
  | _, [] => True
  | s, a :: as => ok s a ∧ ∀ t ∈ step s a, Admits step ok t as

instance decidableAdmits {step : σ → α → Option σ} {ok : σ → α → Prop}
    [∀ s a, Decidable (ok s a)] : ∀ (s : σ) (as : List α), Decidable (Admits step ok s as)
  | _, [] => inferInstanceAs (Decidable True)
  | s, a :: as =>
    have : ∀ t, Decidable (Admits step ok t as) := fun t ↦ decidableAdmits t as
    inferInstanceAs (Decidable (ok s a ∧ ∀ t ∈ step s a, Admits step ok t as))

/-- One admitted action in front of an admitted run. -/
theorem Admits.cons {step : σ → α → Option σ} {ok : σ → α → Prop} {s t : σ} {a : α}
    {as : List α} (hok : ok s a) (hstep : step s a = some t) (hrest : Admits step ok t as) :
    Admits step ok s (a :: as) := by
  refine ⟨hok, fun u hu ↦ ?_⟩
  rw [hstep] at hu
  cases hu
  exact hrest

/-- What a stronger condition admits is admitted. -/
theorem Admits.weaken {step : σ → α → Option σ} {ok ok' : σ → α → Prop}
    (h : ∀ s a, ok s a → ok' s a) {s : σ} {as : List α} (hok : Admits step ok s as) :
    Admits step ok' s as := by
  induction as generalizing s with
  | nil => trivial
  | cons a as ih => exact ⟨h s a hok.1, fun t ht ↦ ih (hok.2 t ht)⟩

/-- The end of an executed run whose actions are all admitted is reached. -/
theorem reachBy_of_run {step : σ → α → Option σ} {ok : σ → α → Prop} {s t : σ} {as : List α}
    (hrun : run step s as = some t) (hok : Admits step ok s as) : ReachBy step ok s t := by
  induction as generalizing s with
  | nil =>
    cases hrun
    exact .refl
  | cons a as ih =>
    obtain ⟨u, hu, htail⟩ := Option.bind_eq_some_iff.mp hrun
    exact ((ReachBy.refl).tail a hok.1 hu).trans (ih htail (hok.2 u hu))

/-- The end of an executed run is reached. -/
theorem reach_of_run {step : σ → α → Option σ} {s t : σ} {as : List α}
    (hrun : run step s as = some t) : Reach step s t := by
  induction as generalizing s with
  | nil =>
    cases hrun
    exact .refl
  | cons a as ih =>
    obtain ⟨u, hu, htail⟩ := Option.bind_eq_some_iff.mp hrun
    exact ((ReachBy.refl).tail a trivial hu).trans (ih htail)

/-- Where steps under a condition can be made and lead from good states to good states, where a
step from a good state that keeps `P` meets the condition, and where `P` cannot be regained, a run
from a good state ends with `P` exactly when all its steps meet the condition. -/
theorem run_keeps_iff {step : σ → α → Option σ} {ok : σ → α → Prop} {P G : σ → Prop}
    (good : ∀ s, G s → P s) (move : ∀ s a, G s → ok s a → ∃ t, step s a = some t ∧ G t)
    (spoil : ∀ s a t, G s → step s a = some t → P t → ok s a)
    (stable : ∀ s a t, step s a = some t → P t → P s) {s : σ} (start : G s) (as : List α) :
    (∃ t, run step s as = some t ∧ P t) ↔ Admits step ok s as := by
  have hstable : ∀ (as : List α) (s t : σ), run step s as = some t → P t → P s := by
    intro as
    induction as with
    | nil =>
      intro s t hrun hp
      cases hrun
      exact hp
    | cons a as ih =>
      intro s t hrun hp
      obtain ⟨u, hstep, hrest⟩ := Option.bind_eq_some_iff.mp hrun
      exact stable s a u hstep (ih u t hrest hp)
  induction as generalizing s with
  | nil =>
    constructor
    · intro _
      trivial
    · intro _
      exact ⟨s, rfl, good s start⟩
  | cons a as ih =>
    constructor
    · rintro ⟨t, hrun, hp⟩
      obtain ⟨u, hstep, hrest⟩ := Option.bind_eq_some_iff.mp hrun
      have hok := spoil s a u start hstep (hstable as u t hrest hp)
      obtain ⟨v, hv, hgood⟩ := move s a start hok
      rw [hstep] at hv
      cases hv
      exact Admits.cons hok hstep ((ih hgood).mp ⟨t, hrest, hp⟩)
    · intro hadmits
      obtain ⟨u, hstep, hgood⟩ := move s a start hadmits.1
      obtain ⟨t, hrest, hp⟩ := (ih hgood).mpr (hadmits.2 u hstep)
      exact ⟨t, Option.bind_eq_some_iff.mpr ⟨u, hstep, hrest⟩, hp⟩

/-- What a run loses, one of its steps loses. -/
theorem exists_step_of_run {step : σ → α → Option σ} {P : σ → Prop} {s t : σ} {as : List α}
    (hrun : run step s as = some t) (before : P s) (after : ¬ P t) :
    ∃ as₁ a as₂ u v, as = as₁ ++ a :: as₂ ∧ run step s as₁ = some u ∧ step u a = some v ∧
      P u ∧ ¬ P v := by
  induction as generalizing s with
  | nil =>
    cases hrun
    exact absurd before after
  | cons a as ih =>
    obtain ⟨u, hstep, hrest⟩ := Option.bind_eq_some_iff.mp hrun
    by_cases hu : P u
    · obtain ⟨as₁, b, as₂, v, w, rfl, hrun₁, hw⟩ := ih hrest hu
      exact ⟨a :: as₁, b, as₂, v, w, rfl, Option.bind_eq_some_iff.mpr ⟨u, hstep, hrun₁⟩, hw⟩
    · exact ⟨[], a, as, s, u, rfl, rfl, hstep, before, hu⟩

/-- A run in two parts. -/
theorem run_append {step : σ → α → Option σ} {s : σ} (as bs : List α) :
    run step s (as ++ bs) = (run step s as).bind fun t ↦ run step t bs := by
  induction as generalizing s with
  | nil => rfl
  | cons a as ih =>
    change (step s a).bind _ = ((step s a).bind _).bind _
    rw [Option.bind_assoc]
    exact Option.bind_congr fun t _ ↦ ih

/-- An admitted run continues an admitted run. -/
theorem Admits.append {step : σ → α → Option σ} {ok : σ → α → Prop} {s t : σ} {as bs : List α}
    (h : Admits step ok s as) (hrun : run step s as = some t) (hrest : Admits step ok t bs) :
    Admits step ok s (as ++ bs) := by
  induction as generalizing s with
  | nil =>
    cases hrun
    exact hrest
  | cons a as ih =>
    obtain ⟨u, hstep, htail⟩ := Option.bind_eq_some_iff.mp hrun
    exact .cons h.1 hstep (ih (h.2 u hstep) htail)

/-! ### Runs of one system that are runs of another -/

section Refinement

variable {τ : Type u} {β : Type v} {step : σ → α → Option σ} {step' : τ → β → Option τ}
  {ok : σ → α → Prop}

/-- If every step is, seen through `f`, nothing or an admitted step of another system, then what is
reached is reached there by admitted steps. -/
theorem ReachBy.refine {ok' : τ → β → Prop} {s₀ s : σ} (f : σ → τ) (h : ReachBy step ok s₀ s)
    (sim : ∀ s a t, ReachBy step ok s₀ s → ok s a → step s a = some t →
      f t = f s ∨ ∃ b, ok' (f s) b ∧ step' (f s) b = some (f t)) :
    ReachBy step' ok' (f s₀) (f s) := by
  induction h with
  | refl => exact .refl
  | @tail s t a hs hok hstep ih =>
    rcases sim s a t hs hok hstep with hsame | ⟨b, hb, hmove⟩
    · rw [hsame]
      exact ih
    · exact ih.tail b hb hmove

/-- A simulation that notes the run of the other system: where each admitted step extends it by
some steps, so does every run. -/
theorem ReachBy.extend {R : σ → List β → τ → Prop}
    (sim : ∀ s a s' bs t, ok s a → step s a = some s' → R s bs t →
      ∃ bs' t', run step' t bs' = some t' ∧ R s' (bs ++ bs') t') {s s' : σ} {bs : List β} {t : τ}
    (h : ReachBy step ok s s') (start : R s bs t) :
    ∃ bs' t', run step' t bs' = some t' ∧ R s' (bs ++ bs') t' := by
  induction h with
  | refl => exact ⟨[], t, rfl, by rw [List.append_nil]; exact start⟩
  | tail a _ hok hstep ih =>
    obtain ⟨bs₁, t₁, hrun₁, hrel₁⟩ := ih
    obtain ⟨bs₂, t₂, hrun₂, hrel₂⟩ := sim _ a _ _ t₁ hok hstep hrel₁
    refine ⟨bs₁ ++ bs₂, t₂, ?_, ?_⟩
    · rw [run_append, hrun₁, Option.bind_some]
      exact hrun₂
    · rw [← List.append_assoc]
      exact hrel₂

/-- A simulation that keeps what can be observed: where each admitted step is matched by some
admitted steps with the same observations, so is every run. -/
theorem run_simulate {γ : Type*} {ok' : τ → β → Prop} {seen : α → Option γ}
    {seen' : β → Option γ}
    {R : σ → τ → Prop}
    (sim : ∀ s a s' t, ok s a → step s a = some s' → R s t →
      ∃ bs t', run step' t bs = some t' ∧ Admits step' ok' t bs ∧
        bs.filterMap seen' = (seen a).toList ∧ R s' t')
    {s s' : σ} {t : τ} {as : List α} (start : R s t)
    (hok : Admits step ok s as) (hrun : run step s as = some s') :
    ∃ bs t', run step' t bs = some t' ∧ Admits step' ok' t bs ∧
      bs.filterMap seen' = as.filterMap seen ∧ R s' t' := by
  induction as generalizing s t with
  | nil =>
    cases hrun
    exact ⟨[], t, rfl, trivial, rfl, start⟩
  | cons a as ih =>
    obtain ⟨u, hstep, hrest⟩ := Option.bind_eq_some_iff.mp hrun
    obtain ⟨bs₁, t₁, hrun₁, hok₁, hseen₁, hrel₁⟩ := sim s a u t hok.1 hstep start
    obtain ⟨bs₂, t₂, hrun₂, hok₂, hseen₂, hrel₂⟩ := ih hrel₁ (hok.2 u hstep) hrest
    refine ⟨bs₁ ++ bs₂, t₂, ?_, hok₁.append hrun₁ hok₂, ?_, hrel₂⟩
    · rw [run_append, hrun₁, Option.bind_some]
      exact hrun₂
    · rw [List.filterMap_append, hseen₁, hseen₂, ← List.singleton_append, List.filterMap_append]
      cases hseen : seen a <;> simp [hseen]

end Refinement

/-! ### Runs that end -/

/-- No run from `s` goes on for ever. -/
def Terminates (step : σ → α → Option σ) (s : σ) : Prop :=
  Acc (fun t s ↦ ∃ a, step s a = some t) s

/-- Every run ends if each step lowers a measure. -/
theorem terminates_of_measure {step : σ → α → Option σ} (f : σ → Nat)
    (lower : ∀ s a t, step s a = some t → f t < f s) (s : σ) : Terminates step s := by
  apply Subrelation.accessible (r := fun t s ↦ f t < f s)
  · rintro t s ⟨a, hstep⟩
    exact lower s a t hstep
  · exact (measure f).wf.apply s

/-- A run that cannot go on for ever leads to a state in which nothing is enabled. -/
theorem Terminates.exists_end {step : σ → α → Option σ} {s : σ} (h : Terminates step s) :
    ∃ t, Reach step s t ∧ ∀ a, step t a = none := by
  induction h with
  | intro s _ ih =>
    by_cases hend : ∀ a, step s a = none
    · exact ⟨s, .refl, hend⟩
    · obtain ⟨a, ha⟩ := not_forall.mp hend
      obtain ⟨u, hu⟩ := Option.ne_none_iff_exists'.mp ha
      obtain ⟨t, ht, hend'⟩ := ih u ⟨a, hu⟩
      exact ⟨t, ((ReachBy.refl).tail a trivial hu).trans ht, hend'⟩

/-! ### Notes beside the state -/

section History

universe w

variable {γ : Type w} {step : σ → α → Option σ} {note : σ → α → σ → γ → γ}

/-- The system with notes of what its steps have done so far. -/
def withHistory (step : σ → α → Option σ) (note : σ → α → σ → γ → γ) (s : σ × γ) (a : α) :
    Option (σ × γ) :=
  (step s.1 a).map fun t ↦ (t, note s.1 a t s.2)

/-- A step with notes is a step, noted. -/
theorem withHistory_eq_some {s t : σ × γ} {a : α} :
    withHistory step note s a = some t ↔ step s.1 a = some t.1 ∧ t.2 = note s.1 a t.1 s.2 := by
  unfold withHistory
  rw [Option.map_eq_some_iff]
  constructor
  · rintro ⟨u, hu, rfl⟩
    exact ⟨hu, rfl⟩
  · rintro ⟨hstep, hnote⟩
    exact ⟨t.1, hstep, by rw [← hnote]⟩

/-- The notes do not change what is reached. -/
theorem ReachBy.forget {ok : σ × γ → α → Prop} {s₀ s : σ × γ}
    (h : ReachBy (withHistory step note) ok s₀ s) : Reach step s₀.1 s.1 := by
  induction h with
  | refl => exact .refl
  | tail a _ _ hstep ih => exact ih.tail a trivial (withHistory_eq_some.mp hstep).1

/-- Notes can be taken of every run. -/
theorem ReachBy.noted {ok : σ → α → Prop} {s₀ s : σ} (h : ReachBy step ok s₀ s) (g : γ) :
    ∃ g', ReachBy (withHistory step note) (fun s a ↦ ok s.1 a) (s₀, g) (s, g') := by
  induction h with
  | refl => exact ⟨g, .refl⟩
  | @tail s t a _ hok hstep ih =>
    obtain ⟨g', hg'⟩ := ih
    have hnoted : withHistory step note (s, g') a = some (t, note s a t g') :=
      withHistory_eq_some.mpr ⟨hstep, rfl⟩
    exact ⟨note s a t g', hg'.tail a hok hnoted⟩

end History

/-! ### Histories of total operations -/

/-- `P` relates state, operation and next state at every operation of the history. -/
def Throughout (apply : σ → α → σ) (P : σ → α → σ → Prop) : σ → List α → Prop
  | _, [] => True
  | s, a :: as => P s a (apply s a) ∧ Throughout apply P (apply s a) as

/-- Where an invariant makes a property of one operation equivalent to a condition that
re-establishes the invariant, the property holds along a history exactly when the
condition does. -/
theorem throughout_iff {apply : σ → α → σ} {P : σ → α → σ → Prop} {ok : σ → α → Prop}
    {I : σ → Prop} {s : σ} (start : I s)
    (step : ∀ s a, I s → (P s a (apply s a) ↔ ok s a))
    (keep : ∀ s a, I s → ok s a → I (apply s a)) (as : List α) :
    Throughout apply P s as ↔ Throughout apply (fun s a _ ↦ ok s a) s as := by
  induction as generalizing s with
  | nil => exact Iff.rfl
  | cons a as ih =>
    constructor
    · rintro ⟨hp, hrest⟩
      have hok := (step s a start).mp hp
      exact ⟨hok, (ih (keep s a start hok)).mp hrest⟩
    · rintro ⟨hok, hrest⟩
      exact ⟨(step s a start).mpr hok, (ih (keep s a start hok)).mpr hrest⟩

end ConcurrentServer.Base
