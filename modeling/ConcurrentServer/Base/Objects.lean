import ConcurrentServer.Base.Program
import ConcurrentServer.Base.Run
import Mathlib.Logic.Function.Basic

/-!
# Objects that share memory

Library `Base`. Objects offer calls, a call is a program, each object runs at most one call at
a time, and the effects of different objects interleave in any order. An `ObjectLogic` proves a
property of every run call by call: it splits the memory into what each object owns, shows once
for every effect that it respects the split, and leaves for each call a weakest precondition
over what its own object owns.
-/

namespace ConcurrentServer.Base

universe u

/-- Objects `ι`: what their effects do to the memory, the calls they offer and their bodies. -/
structure ObjectSystem (ι E : Type) (R : E → Type) (In H Call : Type) (Ret : Call → Type)
    (Mem : Type u) where
  exec : ι → (e : E) → In → Mem → Option (Outcome H (R e) Mem)
  offers : ι → Call → Bool
  body : ι → (c : Call) → Prog E R (Ret c)

/-- What an object is doing. -/
inductive Thread (E : Type) (R : E → Type) (Call : Type) (Ret : Call → Type)
  | idle
  | running (c : Call) (p : Prog E R (Ret c))

/-- The memory, what each object is doing, the calls each has returned from with their results,
and who has ended the process. -/
structure ObjectState (ι E : Type) (R : E → Type) (H Call : Type) (Ret : Call → Type)
    (Mem : Type u) where
  mem : Mem
  thread : ι → Thread E R Call Ret
  log : ι → List ((c : Call) × Ret c)
  halted : Option (ι × H)

/-- What can happen next. -/
inductive ObjectAction (ι In Call : Type)
  /-- Object `i` is called. -/
  | start (i : ι) (c : Call)
  /-- The next effect of object `i`, with the input of the environment. -/
  | perform (i : ι) (inp : In)
  /-- Object `i` is at the head of a loop. -/
  | loop (i : ι)
  /-- The call of object `i` returns. -/
  | finish (i : ι)

/-- The object that moves on. -/
def ObjectAction.object {ι In Call : Type} : ObjectAction ι In Call → ι
  | .start i _ | .perform i _ | .loop i | .finish i => i

/-- Whether a thread is in no call. -/
def Thread.isIdle {E : Type} {R : E → Type} {Call : Type} {Ret : Call → Type} :
    Thread E R Call Ret → Bool
  | .idle => true
  | .running _ _ => false

theorem Thread.eq_idle {E : Type} {R : E → Type} {Call : Type} {Ret : Call → Type}
    {th : Thread E R Call Ret} (h : th.isIdle = true) : th = .idle := by
  cases th with
  | idle => rfl
  | running c p => cases h

variable {ι E : Type} [DecidableEq ι] {R : E → Type} {In H Call : Type} {Ret : Call → Type}
  {Mem : Type u}

namespace ObjectSystem

/-- The step function. -/
def step (sys : ObjectSystem ι E R In H Call Ret Mem) (s : ObjectState ι E R H Call Ret Mem)
    (a : ObjectAction ι In Call) : Option (ObjectState ι E R H Call Ret Mem) :=
  if s.halted.isSome then none else
  match a with
  | .start i c =>
    match s.thread i with
    | .idle =>
      if sys.offers i c then
        some { s with thread := Function.update s.thread i (.running c (sys.body i c)) }
      else none
    | .running _ _ => none
  | .perform i inp =>
    match s.thread i with
    | .running c (.op e k) =>
      match sys.exec i e inp s.mem with
      | some (.value r m) =>
        some { s with mem := m, thread := Function.update s.thread i (.running c (k r)) }
      | some (.halt h) => some { s with halted := some (i, h) }
      | none => none
    | _ => none
  | .loop i =>
    match s.thread i with
    | .running c (.iter body k) =>
      some { s with
        thread := Function.update s.thread i (.running c (Prog.unfoldIter body k)) }
    | _ => none
  | .finish i =>
    match s.thread i with
    | .running c (.pure r) =>
      some { s with
        thread := Function.update s.thread i .idle
        log := Function.update s.log i (s.log i ++ [⟨c, r⟩]) }
    | _ => none

variable {sys : ObjectSystem ι E R In H Call Ret Mem} {s t : ObjectState ι E R H Call Ret Mem}

/-- A step of one object leaves the threads of the others. -/
theorem thread_of_step {a : ObjectAction ι In Call} {j : ι} (hstep : sys.step s a = some t)
    (hj : j ≠ a.object) : t.thread j = s.thread j := by
  simp only [step, Option.ite_none_left_eq_some] at hstep
  obtain ⟨-, hstep⟩ := hstep
  cases a with
  | start i c =>
    simp only at hstep
    split at hstep
    · obtain ⟨-, rfl⟩ := (Option.ite_none_right_eq_some.mp hstep).imp_right Option.some.inj
      exact Function.update_of_ne hj ..
    · cases hstep
  | perform i inp =>
    simp only at hstep
    split at hstep
    · split at hstep
      · obtain rfl := Option.some.inj hstep
        exact Function.update_of_ne hj ..
      · obtain rfl := Option.some.inj hstep
        rfl
      · cases hstep
    · cases hstep
  | loop i =>
    simp only at hstep
    split at hstep
    · obtain rfl := Option.some.inj hstep
      exact Function.update_of_ne hj ..
    · cases hstep
  | finish i =>
    simp only at hstep
    split at hstep
    · obtain rfl := Option.some.inj hstep
      exact Function.update_of_ne hj ..
    · cases hstep

/-- A step leaves the memory or performs an effect. -/
theorem mem_of_step {a : ObjectAction ι In Call} (hstep : sys.step s a = some t) :
    t.mem = s.mem ∨ ∃ i e inp r, sys.exec i e inp s.mem = some (.value r t.mem) := by
  simp only [step, Option.ite_none_left_eq_some] at hstep
  obtain ⟨-, hstep⟩ := hstep
  cases a with
  | start i c =>
    simp only at hstep
    split at hstep
    · obtain ⟨-, rfl⟩ := (Option.ite_none_right_eq_some.mp hstep).imp_right Option.some.inj
      exact Or.inl rfl
    · cases hstep
  | perform i inp =>
    simp only at hstep
    split at hstep
    · split at hstep
      · next hexec =>
        obtain rfl := Option.some.inj hstep
        exact Or.inr ⟨i, _, inp, _, hexec⟩
      · obtain rfl := Option.some.inj hstep
        exact Or.inl rfl
      · cases hstep
    · cases hstep
  | loop i =>
    simp only at hstep
    split at hstep
    · obtain rfl := Option.some.inj hstep
      exact Or.inl rfl
    · cases hstep
  | finish i =>
    simp only at hstep
    split at hstep
    · obtain rfl := Option.some.inj hstep
      exact Or.inl rfl
    · cases hstep

/-- A run in which object `j` does nothing leaves its thread. -/
theorem thread_of_run {as : List (ObjectAction ι In Call)} {j : ι}
    (hrun : run sys.step s as = some t) (hj : ∀ a ∈ as, j ≠ a.object) :
    t.thread j = s.thread j := by
  induction as generalizing s with
  | nil =>
    cases hrun
    rfl
  | cons a as ih =>
    obtain ⟨u, hu, htail⟩ := Option.bind_eq_some_iff.mp hrun
    exact (ih htail fun b hb ↦ hj b (List.mem_cons_of_mem a hb)).trans
      (thread_of_step hu (hj a List.mem_cons_self))

end ObjectSystem

/-- A proof, call by call, about the runs of a system whose steps `admits` allows. `L` is what
one object owns, `coh` says that the objects' parts make up the memory, and `inv` is what an
idle object with a given history guarantees about its part. -/
structure ObjectLogic (sys : ObjectSystem ι E R In H Call Ret Mem)
    (admits : ObjectState ι E R H Call Ret Mem → ObjectAction ι In Call → Prop) (L : Type u) where
  spec : ι → LocalSpec E R In H L
  coh : (ι → L) → Mem → Prop
  inv : ι → List ((c : Call) × Ret c) → L → Prop
  mayHalt : ι → H → Prop
  legal : ∀ {s ls i c e k inp}, coh ls s.mem → s.thread i = .running c (.op e k) →
    admits s (.perform i inp) → (spec i).legal e inp (ls i)
  value : ∀ {ls m i e inp r m'}, coh ls m → (spec i).ok e (ls i) → (spec i).legal e inp (ls i) →
    sys.exec i e inp m = some (.value r m') →
      ∃ l', (spec i).act e inp (ls i) (.value r l') ∧ coh (Function.update ls i l') m'
  halt : ∀ {ls m i e inp h}, coh ls m → (spec i).ok e (ls i) → (spec i).legal e inp (ls i) →
    sys.exec i e inp m = some (.halt h) → (spec i).act e inp (ls i) (.halt h)
  call : ∀ {s ls i c}, coh ls s.mem → inv i (s.log i) (ls i) → sys.offers i c = true →
    admits s (.start i c) →
      wp (spec i) (mayHalt i) (sys.body i c) (fun r l ↦ inv i (s.log i ++ [⟨c, r⟩]) l) (ls i)

namespace ObjectLogic

variable {sys : ObjectSystem ι E R In H Call Ret Mem}
  {admits : ObjectState ι E R H Call Ret Mem → ObjectAction ι In Call → Prop} {L : Type u}
  (logic : ObjectLogic sys admits L) {s t : ObjectState ι E R H Call Ret Mem}

/-- What an object guarantees about its part: the invariant, or to re-establish it. -/
def Guarantees (i : ι) (log : List ((c : Call) × Ret c)) :
    Thread E R Call Ret → L → Prop
  | .idle, l => logic.inv i log l
  | .running c p, l =>
    wp (logic.spec i) (logic.mayHalt i) p (fun r l ↦ logic.inv i (log ++ [⟨c, r⟩]) l) l

/-- The memory is split so that every object keeps its guarantee, and if the process has ended
then as it may. -/
structure Holds (s : ObjectState ι E R H Call Ret Mem) (ls : ι → L) : Prop where
  coh : logic.coh ls s.mem
  guarantee : ∀ i, logic.Guarantees i (s.log i) (s.thread i) (ls i)
  halted : ∀ i h, s.halted = some (i, h) → logic.mayHalt i h

variable {logic}

/-- The part of an idle object has its invariant. -/
theorem Holds.idle {ls : ι → L} (h : logic.Holds s ls) {i : ι} (idle : s.thread i = .idle) :
    logic.inv i (s.log i) (ls i) := by
  have hguar := h.guarantee i
  rwa [idle] at hguar

/-- Object `i` moves on: the guarantees of the others are untouched. -/
theorem Holds.update {ls : ι → L} (h : logic.Holds s ls) {i : ι} {l' : L}
    {th : Thread E R Call Ret} {log : List ((c : Call) × Ret c)} {mem : Mem}
    (coh : logic.coh (Function.update ls i l') mem)
    (guarantee : logic.Guarantees i log th l') :
    logic.Holds ⟨mem, Function.update s.thread i th, Function.update s.log i log, s.halted⟩
      (Function.update ls i l') where
  coh := coh
  halted := h.halted
  guarantee j := by
    by_cases hj : j = i
    · subst hj
      simpa only [Function.update_self] using guarantee
    · simpa only [Function.update_of_ne hj] using h.guarantee j

/-- Object `i` moves on inside its call. -/
theorem Holds.updateThread {ls : ι → L} (h : logic.Holds s ls) {i : ι} {l' : L}
    {th : Thread E R Call Ret} {mem : Mem} (coh : logic.coh (Function.update ls i l') mem)
    (guarantee : logic.Guarantees i (s.log i) th l') :
    logic.Holds { s with mem := mem, thread := Function.update s.thread i th }
      (Function.update ls i l') := by
  have hupdate := h.update coh guarantee
  rwa [Function.update_eq_self] at hupdate

/-- An admitted step keeps some split. -/
theorem Holds.step {ls : ι → L} (h : logic.Holds s ls) {a : ObjectAction ι In Call}
    (hok : admits s a) (hstep : sys.step s a = some t) : ∃ ls', logic.Holds t ls' := by
  simp only [ObjectSystem.step, Option.ite_none_left_eq_some] at hstep
  obtain ⟨-, hstep⟩ := hstep
  have same (i : ι) : logic.coh (Function.update ls i (ls i)) s.mem := by
    rw [Function.update_eq_self]
    exact h.coh
  cases a with
  | start i c =>
    cases hth : s.thread i with
    | running c' p => simp [hth] at hstep
    | idle =>
      simp only [hth, Option.ite_none_right_eq_some] at hstep
      obtain ⟨hoffers, rfl⟩ := hstep.imp_right Option.some.inj
      exact ⟨_, h.updateThread (same i) (logic.call h.coh (h.idle hth) hoffers hok)⟩
  | perform i inp =>
    have hguar := h.guarantee i
    cases hth : s.thread i with
    | idle => simp [hth] at hstep
    | running c p =>
      rw [hth] at hguar
      cases p with
      | pure r => simp [hth] at hstep
      | iter body k => simp [hth] at hstep
      | op e k =>
        obtain ⟨hpre, hpost⟩ := hguar
        have hlegal := logic.legal h.coh hth hok
        simp only [hth] at hstep
        cases hexec : sys.exec i e inp s.mem with
        | none => simp [hexec] at hstep
        | some out =>
          simp only [hexec] at hstep
          cases out with
          | value r m =>
            obtain rfl := Option.some.inj hstep
            obtain ⟨l', hact, hcoh⟩ := logic.value h.coh hpre hlegal hexec
            exact ⟨_, h.updateThread hcoh (hpost inp _ hlegal hact)⟩
          | halt hr =>
            obtain rfl := Option.some.inj hstep
            refine ⟨ls, h.coh, h.guarantee, fun j hr' he ↦ ?_⟩
            cases he
            exact hpost inp _ hlegal (logic.halt h.coh hpre hlegal hexec)
  | loop i =>
    have hguar := h.guarantee i
    cases hth : s.thread i with
    | idle => simp [hth] at hstep
    | running c p =>
      rw [hth] at hguar
      cases p with
      | pure r => simp [hth] at hstep
      | op e k => simp [hth] at hstep
      | iter body k =>
        simp only [hth] at hstep
        obtain rfl := Option.some.inj hstep
        exact ⟨_, h.updateThread (same i) (wp_unfoldIter hguar)⟩
  | finish i =>
    have hguar := h.guarantee i
    cases hth : s.thread i with
    | idle => simp [hth] at hstep
    | running c p =>
      rw [hth] at hguar
      cases p with
      | op e k => simp [hth] at hstep
      | iter body k => simp [hth] at hstep
      | pure r =>
        simp only [hth] at hstep
        obtain rfl := Option.some.inj hstep
        exact ⟨_, h.update (same i) hguar⟩

/-- In every admitted run the memory stays split. -/
theorem holds_of_reachBy {s₀ : ObjectState ι E R H Call Ret Mem}
    (h : ReachBy sys.step admits s₀ s) (start : ∃ ls, logic.Holds s₀ ls) :
    ∃ ls, logic.Holds s ls :=
  h.invariant (P := fun s ↦ ∃ ls, logic.Holds s ls) start
    fun _ _ _ ⟨_, hs⟩ hok hstep ↦ hs.step hok hstep

end ObjectLogic

end ConcurrentServer.Base
