import ConcurrentServer.Base.Objects

/-!
# Programs that run alone

Library `Base`. What comes of a program none of whose effects is interleaved with those of
others, when the environment gives each effect its answer: what its weakest precondition says,
and the run of the system of objects that it stands for. Programs with loops are left out.
-/

namespace ConcurrentServer.Base

universe u

variable {E : Type} {R : E → Type} {In H : Type} {Mem : Type u} {α β : Type}

namespace Prog

/-- What comes of a program that runs alone; `none` where it has a loop or an effect cannot
happen. -/
def alone (exec : (e : E) → In → Mem → Option (Outcome H (R e) Mem)) (env : E → In) :
    {α : Type} → Prog E R α → Mem → Option (Outcome H α Mem)
  | _, .pure a, m => some (.value a m)
  | _, .op e k, m =>
    match exec e (env e) m with
    | some (.value r m') => (k r).alone exec env m'
    | some (.halt h) => some (.halt h)
    | none => none
  | _, .iter _ _, _ => none

variable {exec : (e : E) → In → Mem → Option (Outcome H (R e) Mem)} {env : E → In} {m m' : Mem}

/-- Sequence. -/
theorem alone_bind {p : Prog E R α} {f : α → Prog E R β} :
    (p >>= f).alone exec env m =
      match p.alone exec env m with
      | some (.value a m') => (f a).alone exec env m'
      | some (.halt h) => some (.halt h)
      | none => none := by
  change (p.bind f).alone exec env m = _
  induction p generalizing m with
  | pure a => rfl
  | op e k ih =>
    simp only [Prog.bind, alone]
    cases exec e (env e) m with
    | none => rfl
    | some out =>
      cases out with
      | value r m' => exact ih r
      | halt h => rfl
  | iter body k _ _ => rfl

/-- A sequence returns if its parts do. -/
theorem alone_bind_eq_value {p : Prog E R α} {f : α → Prog E R β} {b : β} {m'' : Mem} :
    (p >>= f).alone exec env m = some (.value b m'') ↔
      ∃ a m', p.alone exec env m = some (.value a m') ∧
        (f a).alone exec env m' = some (.value b m'') := by
  rw [alone_bind]
  split
  · next a m' hp => simp [hp]
  · next h hp => simp [hp]
  · next hp => simp [hp]

/-- One effect. -/
theorem alone_perform (e : E) :
    (Prog.perform e : Prog E R (R e)).alone exec env m = exec e (env e) m := by
  simp only [perform, alone]
  cases exec e (env e) m with
  | none => rfl
  | some out => cases out <;> rfl

theorem bind_pure (p : Prog E R α) : p >>= Pure.pure = p := by
  change p.bind .pure = p
  induction p with
  | pure a => rfl
  | op e k ih => exact congrArg (Prog.op e) (funext ih)
  | iter body k _ ih => exact congrArg (Prog.iter body) (funext ih)

/-- Every effect has an answer and there is no loop. -/
def Answered (exec : (e : E) → In → Mem → Option (Outcome H (R e) Mem)) (env : E → In) :
    {α : Type} → Prog E R α → Prop
  | _, .pure _ => True
  | _, .op e k => (∀ m, (exec e (env e) m).isSome) ∧ ∀ r, (k r).Answered exec env
  | _, .iter _ _ => False

theorem Answered.bind {p : Prog E R α} {f : α → Prog E R β} (hp : p.Answered exec env)
    (hf : ∀ a, (f a).Answered exec env) : (p >>= f).Answered exec env := by
  change (p.bind f).Answered exec env
  induction p with
  | pure a => exact hf a
  | op e k ih => exact ⟨hp.1, fun r ↦ ih r (hp.2 r) hf⟩
  | iter body k _ _ => exact hp.elim

theorem Answered.perform {e : E} (h : ∀ m, (exec e (env e) m).isSome) :
    (Prog.perform e : Prog E R (R e)).Answered exec env :=
  ⟨h, fun _ ↦ trivial⟩

/-- Then something comes of it. -/
theorem Answered.isSome {p : Prog E R α} (h : p.Answered exec env) (m : Mem) :
    (p.alone exec env m).isSome := by
  induction p generalizing m with
  | pure a => rfl
  | op e k ih =>
    have hexec := h.1 m
    simp only [alone]
    split
    · exact ih _ (h.2 _) _
    · rfl
    · next hnone =>
      rw [hnone] at hexec
      cases hexec
  | iter body k _ _ => exact h.elim

end Prog

/-- What a weakest precondition says of a program that runs alone, on a part of the memory that
`coh` relates to the whole. -/
theorem wp_alone {L : Type u} {spec : LocalSpec E R In H L} {mayHalt : H → Prop}
    {coh : L → Mem → Prop} {exec : (e : E) → In → Mem → Option (Outcome H (R e) Mem)}
    {env : E → In} (legal : ∀ e l, spec.legal e (env e) l)
    (value : ∀ {l m e r m'}, coh l m → spec.ok e l → exec e (env e) m = some (.value r m') →
      ∃ l', spec.act e (env e) l (.value r l') ∧ coh l' m')
    (halt : ∀ {l m e h}, coh l m → spec.ok e l → exec e (env e) m = some (.halt h) →
      spec.act e (env e) l (.halt h))
    {p : Prog E R α} {Q : α → L → Prop} {l : L} {m : Mem} (h : wp spec mayHalt p Q l)
    (start : coh l m) :
    (∀ a m', p.alone exec env m = some (.value a m') → ∃ l', Q a l' ∧ coh l' m') ∧
      ∀ hr, p.alone exec env m = some (.halt hr) → mayHalt hr := by
  induction p generalizing l m with
  | pure a =>
    constructor
    · intro a' m' hrun
      cases hrun
      exact ⟨l, h, start⟩
    · intro hr hrun
      cases hrun
  | op e k ih =>
    obtain ⟨hok, hpost⟩ := h
    simp only [Prog.alone]
    cases hexec : exec e (env e) m with
    | none => exact ⟨nofun, nofun⟩
    | some out =>
      cases out with
      | value r m' =>
        obtain ⟨l', hact, hcoh⟩ := value start hok hexec
        exact ih r (hpost _ _ (legal e l) hact) hcoh
      | halt hr =>
        have hmay := hpost _ _ (legal e l) (halt start hok hexec)
        refine ⟨nofun, fun hr' hrun ↦ ?_⟩
        cases hrun
        exact hmay
  | iter body k _ _ => exact ⟨nofun, nofun⟩

/-! ### As a run -/

namespace ObjectSystem

variable {ι : Type} [DecidableEq ι] {Call : Type} {Ret : Call → Type}
  {sys : ObjectSystem ι E R In H Call Ret Mem} {s : ObjectState ι E R H Call Ret Mem} {i : ι}
  {c : Call} {env : E → In} {m' : Mem}

/-- What comes of the first part of a call is reached by steps of its object. -/
theorem reach_of_alone {p : Prog E R α} {f : α → Prog E R (Ret c)} {a : α}
    (hth : s.thread i = .running c (p >>= f)) (hhalted : s.halted = none)
    (hrun : p.alone (sys.exec i) env s.mem = some (.value a m')) :
    ReachBy sys.step (fun _ b ↦ b.object = i) s
      { s with mem := m', thread := Function.update s.thread i (.running c (f a)) } := by
  change s.thread i = .running c (p.bind f) at hth
  induction p generalizing s with
  | pure a' =>
    cases hrun
    have hsame : Function.update s.thread i (.running c (f a')) = s.thread :=
      Function.update_eq_self_iff.mpr hth.symm
    rw [hsame]
    exact .refl
  | op e k ih =>
    simp only [Prog.alone] at hrun
    cases hexec : sys.exec i e (env e) s.mem with
    | none =>
      rw [hexec] at hrun
      cases hrun
    | some out =>
      rw [hexec] at hrun
      cases out with
      | halt h => cases hrun
      | value r m =>
        let t : ObjectState ι E R H Call Ret Mem := { s with
          mem := m, thread := Function.update s.thread i (.running c ((k r).bind f)) }
        have hstep : sys.step s (.perform i (env e)) = some t := by
          rw [step, if_neg (by simp [hhalted]), hth]
          simp only [Prog.bind, hexec]
          rfl
        have hrest := ih r (s := t) hhalted hrun (Function.update_self ..)
        have hfirst : ReachBy sys.step (fun _ b ↦ b.object = i) s t :=
          ReachBy.refl.tail _ rfl hstep
        simp only [t, Function.update_idem] at hrest
        exact hfirst.trans hrest
  | iter body k _ _ => cases hrun

/-- A call that runs alone is made of steps of its object. -/
theorem reach_of_call_alone {r : Ret c} (idle : s.thread i = .idle) (hhalted : s.halted = none)
    (hoffers : sys.offers i c = true)
    (hrun : (sys.body i c).alone (sys.exec i) env s.mem = some (.value r m')) :
    ReachBy sys.step (fun _ b ↦ b.object = i) s
      { s with mem := m', log := Function.update s.log i (s.log i ++ [⟨c, r⟩]) } := by
  let t : ObjectState ι E R H Call Ret Mem := { s with
    thread := Function.update s.thread i (.running c (sys.body i c)) }
  let u : ObjectState ι E R H Call Ret Mem := { s with
    mem := m', thread := Function.update s.thread i (.running c (pure r)) }
  have hstart : sys.step s (.start i c) = some t := by
    rw [step, if_neg (by simp [hhalted]), idle]
    exact if_pos hoffers
  have hth : t.thread i = .running c (sys.body i c >>= pure) := by
    rw [Prog.bind_pure]
    exact Function.update_self ..
  have hbody : ReachBy sys.step (fun _ b ↦ b.object = i) t u := by
    have hreach := reach_of_alone hth hhalted hrun
    rwa [Function.update_idem] at hreach
  have hthread : Function.update u.thread i .idle = s.thread := by
    rw [Function.update_idem, ← idle, Function.update_eq_self]
  have hfinish : sys.step u (.finish i) = some
      { s with mem := m', log := Function.update s.log i (s.log i ++ [⟨c, r⟩]) } := by
    have hu : u.thread i = .running c (.pure r) := Function.update_self ..
    have hhalted' : u.halted = none := hhalted
    rw [step, if_neg (by simp [hhalted']), hu]
    simp only [hthread]
    rfl
  have hfirst : ReachBy sys.step (fun _ b ↦ b.object = i) s t := ReachBy.refl.tail _ rfl hstart
  exact (hfirst.trans hbody).tail _ rfl hfinish

end ObjectSystem

end ConcurrentServer.Base
