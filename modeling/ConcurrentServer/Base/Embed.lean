import ConcurrentServer.Base.Program

/-!
# Programs inside a larger state

Library `Base`. A program over effects `E` is a program over more effects `E'`, of which `f`
names those of `E`. Where these touch only one part of what the caller owns, the weakest
precondition over that part is one over the whole, and the rest stays as it was.
-/

namespace ConcurrentServer.Base

universe u v

/-- A part `L` of a state `L'`: it can be read and replaced. -/
structure Part (L' : Type u) (L : Type v) where
  get : L' → L
  put : L → L' → L'
  get_put : ∀ l l', get (put l l') = l
  put_get : ∀ l', put (get l') l' = l'
  put_put : ∀ l₁ l₂ l', put l₂ (put l₁ l') = put l₂ l'

/-- The states in the outcome of an effect, each changed alike. -/
def Outcome.map {H ρ : Type} {σ : Type u} {τ : Type v} (g : σ → τ) :
    Outcome H ρ σ → Outcome H ρ τ
  | .value r s => .value r (g s)
  | .halt h => .halt h

namespace Prog

variable {E E' : Type} {R : E → Type} {R' : E' → Type} {α β : Type}

/-- The program with its effects among those of `E'`. -/
def embed (f : E → E') (answer : ∀ e, R' (f e) → R e) :
    {α : Type} → Prog E R α → Prog E' R' α
  | _, .pure a => .pure a
  | _, .op e k => .op (f e) fun r ↦ (k (answer e r)).embed f answer
  | _, .iter body k => .iter (body.embed f answer) fun b ↦ (k b).embed f answer

end Prog

variable {E E' : Type} {R : E → Type} {R' : E' → Type} {In H : Type} {L : Type u} {L' : Type v}
  {α : Type}

/-- The effects of `spec` are effects of `spec'` on one part of the state. -/
structure Embeds (spec : LocalSpec E R In H L) (spec' : LocalSpec E' R' In H L') (f : E → E')
    (answer : ∀ e, R' (f e) → R e) (part : Part L' L) : Prop where
  ok : ∀ {e l'}, spec.ok e (part.get l') → spec'.ok (f e) l'
  legal : ∀ {e inp l'}, spec'.legal (f e) inp l' → spec.legal e inp (part.get l')
  value : ∀ {e inp l' r t}, spec'.act (f e) inp l' (.value r t) →
    ∃ l, spec.act e inp (part.get l') (.value (answer e r) l) ∧ t = part.put l l'
  halt : ∀ {e inp l' h}, spec'.act (f e) inp l' (.halt h) →
    spec.act e inp (part.get l') (.halt h)

/-- A program does inside a larger state what it does on its part. -/
theorem Embeds.wp_embed {spec : LocalSpec E R In H L} {spec' : LocalSpec E' R' In H L'}
    {f : E → E'} {answer : ∀ e, R' (f e) → R e} {part : Part L' L}
    (h : Embeds spec spec' f answer part) {mayHalt : H → Prop} {p : Prog E R α}
    {Q : α → L' → Prop} {l' : L'}
    (hp : wp spec mayHalt p (fun a l ↦ Q a (part.put l l')) (part.get l')) :
    wp spec' mayHalt (p.embed f answer) Q l' := by
  induction p generalizing l' with
  | pure a =>
    have hq : Q a (part.put (part.get l') l') := hp
    rwa [part.put_get] at hq
  | op e k ih =>
    obtain ⟨hok, hafter⟩ := hp
    refine ⟨h.ok hok, fun inp out hlegal hact ↦ ?_⟩
    cases out with
    | value r t =>
      obtain ⟨l, hact', rfl⟩ := h.value hact
      apply ih
      have hrest := hafter inp _ (h.legal hlegal) hact'
      rw [part.get_put]
      simpa only [part.put_put] using hrest
    | halt hr => exact hafter inp _ (h.legal hlegal) (h.halt hact)
  | iter body k ihbody ihk =>
    obtain ⟨I, hstart, hbody⟩ := hp
    -- The invariant of the part, while the rest is as at the start.
    refine ⟨fun t ↦ ∃ l, I l ∧ t = part.put l l', ⟨_, hstart, (part.put_get l').symm⟩, ?_⟩
    rintro _ ⟨l, hl, rfl⟩
    apply ihbody
    rw [part.get_put]
    refine wp_mono (hbody l hl) fun o m ho ↦ ?_
    rw [part.put_put]
    cases o with
    | none => exact ⟨m, ho, rfl⟩
    | some b =>
      apply ihk
      rw [part.get_put]
      simpa only [part.put_put] using ho

end ConcurrentServer.Base
