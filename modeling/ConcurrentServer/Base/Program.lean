import Mathlib.Logic.Basic

/-!
# Imperative programs over effects

Library `Base`. A program performs effects `e : E`, each answering in `R e`, and loops; it is
read with `do`. What an effect may do to the part of the state that its caller owns is a
`LocalSpec`; `wp` is the weakest precondition over it, with the rules that its users need:
consequence, sequence and loop.
-/

namespace ConcurrentServer.Base

universe u

/-- Programs that return in `α`. `iter body k` runs `body` until it returns some `b`, and goes
on as `k b`. -/
inductive Prog (E : Type) (R : E → Type) : Type → Type 1
  | pure {α : Type} (a : α) : Prog E R α
  | op {α : Type} (e : E) (k : R e → Prog E R α) : Prog E R α
  | iter {α β : Type} (body : Prog E R (Option β)) (k : β → Prog E R α) : Prog E R α

namespace Prog

variable {E : Type} {R : E → Type} {α β γ : Type}

/-- Sequence. -/
def bind : {α : Type} → Prog E R α → (α → Prog E R β) → Prog E R β
  | _, .pure a, f => f a
  | _, .op e k, f => .op e fun r ↦ (k r).bind f
  | _, .iter body k, f => .iter body fun b ↦ (k b).bind f

instance : Monad (Prog E R) where
  pure := Prog.pure
  bind := Prog.bind

/-- One effect. -/
def perform (e : E) : Prog E R (R e) := .op e .pure

/-- `body` until it returns some value, and that value. -/
def repeatUntil (body : Prog E R (Option β)) : Prog E R β := .iter body .pure

/-- One pass through the loop at the head of `iter body k`. -/
def unfoldIter (body : Prog E R (Option β)) (k : β → Prog E R α) : Prog E R α :=
  body.bind fun
    | none => .iter body k
    | some b => k b

end Prog

/-- What comes of an effect: an answer and a state, or the end of the process. -/
inductive Outcome (H ρ : Type) (σ : Type u)
  | value (r : ρ) (s : σ)
  | halt (h : H)

/-- What effects may do to the part of the state that their caller owns: `ok` must hold before
the effect, `legal` are the inputs of the environment that are considered. -/
structure LocalSpec (E : Type) (R : E → Type) (In H : Type) (L : Type u) where
  ok : E → L → Prop
  legal : E → In → L → Prop
  act : (e : E) → In → L → Outcome H (R e) L → Prop

variable {E : Type} {R : E → Type} {In H : Type} {L : Type u} {α β : Type}

/-- From `l`, the program meets the preconditions of its effects, ends the process only as
`mayHalt` allows, and returns as `Q` says. -/
def wp (spec : LocalSpec E R In H L) (mayHalt : H → Prop) :
    {α : Type} → Prog E R α → (α → L → Prop) → L → Prop
  | _, .pure a, Q, l => Q a l
  | _, .op e k, Q, l =>
    spec.ok e l ∧ ∀ inp out, spec.legal e inp l → spec.act e inp l out →
      match out with
      | .value r l' => wp spec mayHalt (k r) Q l'
      | .halt h => mayHalt h
  | _, .iter body k, Q, l =>
    ∃ I : L → Prop, I l ∧ ∀ l, I l → wp spec mayHalt body (fun o l ↦
      match o with
      | none => I l
      | some b => wp spec mayHalt (k b) Q l) l

section Rules

variable {spec : LocalSpec E R In H L} {mayHalt : H → Prop} {l : L}

@[simp] theorem wp_pure {a : α} {Q : α → L → Prop} :
    wp spec mayHalt (pure a : Prog E R α) Q l ↔ Q a l := Iff.rfl

/-- Consequence. -/
theorem wp_mono {p : Prog E R α} {Q Q' : α → L → Prop} (h : wp spec mayHalt p Q l)
    (himp : ∀ a l, Q a l → Q' a l) : wp spec mayHalt p Q' l := by
  induction p generalizing l with
  | pure a => exact himp a l h
  | op e k ih =>
    refine ⟨h.1, fun inp out hlegal hact ↦ ?_⟩
    have hout := h.2 inp out hlegal hact
    cases out with
    | value r l' => exact ih r hout himp
    | halt h => exact hout
  | iter body k ihbody ihk =>
    obtain ⟨I, hI, hbody⟩ := h
    refine ⟨I, hI, fun l hl ↦ ihbody (hbody l hl) fun o l ho ↦ ?_⟩
    cases o with
    | none => exact ho
    | some b => exact ihk b ho himp

/-- Sequence. -/
theorem wp_bind {p : Prog E R α} {f : α → Prog E R β} {Q : β → L → Prop} :
    wp spec mayHalt (p >>= f) Q l ↔
      wp spec mayHalt p (fun a l ↦ wp spec mayHalt (f a) Q l) l := by
  change wp spec mayHalt (p.bind f) Q l ↔ _
  induction p generalizing l with
  | pure a => exact Iff.rfl
  | op e k ih =>
    refine and_congr Iff.rfl (forall_congr' fun inp ↦ forall_congr' fun out ↦
      forall_congr' fun _ ↦ forall_congr' fun _ ↦ ?_)
    cases out with
    | value r l' => exact ih r
    | halt h => exact Iff.rfl
  | iter body k _ ihk =>
    refine exists_congr fun I ↦ and_congr Iff.rfl (forall_congr' fun l ↦
      forall_congr' fun _ ↦ ⟨fun h ↦ wp_mono h ?_, fun h ↦ wp_mono h ?_⟩)
    all_goals
      intro o l ho
      cases o with
      | none => exact ho
      | some b => first | exact (ihk b).mp ho | exact (ihk b).mpr ho

/-- One effect. -/
theorem wp_perform {e : E} {Q : R e → L → Prop} (ok : spec.ok e l)
    (value : ∀ inp r l', spec.legal e inp l → spec.act e inp l (.value r l') → Q r l')
    (halt : ∀ inp h, spec.legal e inp l → spec.act e inp l (.halt h) → mayHalt h) :
    wp spec mayHalt (Prog.perform e : Prog E R (R e)) Q l := by
  refine ⟨ok, fun inp out hlegal hact ↦ ?_⟩
  cases out with
  | value r l' => exact value inp r l' hlegal hact
  | halt h => exact halt inp h hlegal hact

/-- A loop keeps its invariant until it ends. -/
theorem wp_repeatUntil {body : Prog E R (Option β)} {Q : β → L → Prop} (I : L → Prop)
    (start : I l)
    (keep : ∀ l, I l → wp spec mayHalt body (fun o l ↦
      match o with
      | none => I l
      | some b => Q b l) l) :
    wp spec mayHalt (Prog.repeatUntil body) Q l :=
  ⟨I, start, keep⟩

/-- What holds before a loop holds after one pass. -/
theorem wp_unfoldIter {body : Prog E R (Option β)} {k : β → Prog E R α} {Q : α → L → Prop}
    (h : wp spec mayHalt (.iter body k) Q l) :
    wp spec mayHalt (Prog.unfoldIter body k) Q l := by
  obtain ⟨I, hI, hbody⟩ := h
  refine wp_bind.mpr (wp_mono (hbody l hI) fun o l ho ↦ ?_)
  cases o with
  | none => exact ⟨I, ho, hbody⟩
  | some b => exact ho

end Rules

end ConcurrentServer.Base
