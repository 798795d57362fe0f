import ConcurrentServer.Base.Threads
import ConcurrentServer.Net.LoopStep

/-!
# Quitting the event loop

`src/net/event_loop.cpp:58–85`. `quit` sets `el_quit` and wakes the loop unless its caller
constructed the loop; `loop()` resets `el_quit` when it is called. A `quit` is heard when neither
gets in its way.
-/

namespace ConcurrentServer.Net
open ConcurrentServer.Base

namespace LoopSystem

variable {ctor runner : ThreadId} {s s' : LoopSystem} {h h' : LoopHistory} {a : LoopAction}

/-! ### What is lost -/

/-- After the return of a `quit`, the loop waits in `epoll_wait` with `el_quit` false, or with
`el_quit` true and nothing to wake it. -/
def QuitLost (s : LoopSystem) (h : LoopHistory) : Prop :=
  h.quitReturned = true ∧ s.pc = .poll ∧
    (s.el.elQuit = false ∨ s.el.elQuit = true ∧ s.el.evfd = 0)

/-- A thread that does not run the loop sets `el_quit` after `loop()` has been called, and, if it
constructed the loop, not while `epoll_wait` has nothing to return for. -/
def QuitsInTime (runner : ThreadId) (s : LoopSystem) : LoopAction → Prop
  | .call t => t ≠ runner → (s.calls t).head? = some .quit →
    s.pc ≠ .before ∧ (s.el.isInLoopThread t = true → s.pc = .poll → 0 < s.el.evfd)
  | .addTask _ _ | .quit _ | .loop _ => True

instance : ∀ (s : LoopSystem) (a : LoopAction), Decidable (s.QuitsInTime runner a)
  | s, .call t => inferInstanceAs (Decidable (t ≠ runner → (s.calls t).head? = some .quit →
      s.pc ≠ .before ∧ (s.el.isInLoopThread t = true → s.pc = .poll → 0 < s.el.evfd)))
  | _, .addTask _ _ | _, .quit _ | _, .loop _ => inferInstanceAs (Decidable True)

/-- `el_quit` is set and nothing will reset it. -/
def Stops (s : LoopSystem) : Prop := s.el.elQuit = true ∧ s.pc ≠ .before

/-- The loop will see `el_quit`. -/
structure Heard (s : LoopSystem) : Prop where
  stops : s.Stops
  wakes : s.pc = .poll → 0 < s.el.evfd

/-- Every step. -/
theorem Stops.step (hs : s.Stops) (hstep : Step runner s h a s' h') : s'.Stops := by
  cases hstep with
  | addTask | callQuit | inline | lock | inlined | push | toWake | ret | wake => exact hs
  | quit t rest top => exact ⟨rfl, hs.2⟩
  | start ready at_ => exact absurd at_ hs.2
  | done | wait | report | timeout | readEvfd | deal | swap | finish | task =>
    refine ⟨hs.1, ?_⟩
    intro hbefore
    cases hbefore

/-- Every step: the loop does not wait again. -/
theorem Heard.step (hs : s.Heard) (hstep : Step runner s h a s' h') : s'.Heard := by
  refine ⟨hs.stops.step hstep, ?_⟩
  intro hpoll
  cases hstep with
  | addTask | callQuit | inline | lock | inlined | push | quit | toWake | ret =>
    exact hs.wakes hpoll
  | wake t rest top => exact Nat.succ_pos s.el.evfd
  | wait ready at_ run =>
    rw [hs.stops.1] at run
    cases run
  | start | done | report | timeout | readEvfd | deal | swap | finish | task => cases hpoll

/-- The thread that constructed the loop is the same. -/
theorem Step.isInLoopThread (hstep : Step runner s h a s' h') (t : ThreadId) :
    s'.el.isInLoopThread t = s.el.isInLoopThread t := by
  cases hstep <;> rfl

/-- Who is between its store and its return was so before, or makes the store. -/
theorem Step.quitting (hstep : Step runner s h a s' h') {t : ThreadId}
    (ht : h'.quitting t = true) :
    h.quitting t = true ∨ a = .call t ∧ (s.calls t).head? = some .quit ∧
      s'.pc = s.pc ∧ s'.el = { s.el with elQuit := true } := by
  cases hstep with
  | quit t' rest top =>
    cases of_update_true ht with
    | inl hself =>
      rw [hself, top]
      exact Or.inr ⟨rfl, rfl, rfl, rfl⟩
    | inr hbefore => exact Or.inl hbefore
  | ret t' c rest top own => exact Or.inl (of_update_false ht).2
  | wake t' rest top => exact Or.inl (of_update_false ht).2
  | _ => exact Or.inl ht

/-- What the return of a call adds. -/
theorem returned_ret {t : ThreadId} (hret : (h.ret runner t).quitReturned = true) :
    h.quitReturned = true ∨ t ≠ runner ∧ h.quitting t = true := by
  have hnoted : (h.quitReturned || (h.quitting t && t != runner)) = true := hret
  simp only [Bool.or_eq_true, Bool.and_eq_true, bne_iff_ne] at hnoted
  exact hnoted.imp id And.symm

/-- A `quit` has returned before, or it returns now: to the thread that constructed the loop, or
with a wake-up. -/
theorem Step.quitReturned (hstep : Step runner s h a s' h') (hret : h'.quitReturned = true) :
    h.quitReturned = true ∨ ∃ t, t ≠ runner ∧ h.quitting t = true ∧
      (s.el.isInLoopThread t = true ∨ 0 < s'.el.evfd) := by
  cases hstep with
  | ret t c rest top own =>
    exact (returned_ret hret).imp id fun hnow ↦ ⟨t, hnow.1, hnow.2, Or.inl own⟩
  | wake t rest top =>
    refine (returned_ret hret).imp id fun hnow ↦ ⟨t, hnow.1, hnow.2, Or.inr ?_⟩
    exact Nat.succ_pos s.el.evfd
  | _ => exact Or.inl hret

/-- A `quit` that has been stored stops the loop, and one that has returned is heard. -/
structure QuitKept (runner : ThreadId) (s : LoopSystem) (h : LoopHistory) : Prop where
  stored : ∀ t, t ≠ runner → h.quitting t = true →
    s.Stops ∧ (s.el.isInLoopThread t = true → s.Heard)
  returned : h.quitReturned = true → s.Heard

/-- Every step that stores in time. -/
theorem QuitKept.step (hk : s.QuitKept runner h) (hok : s.QuitsInTime runner a)
    (hstep : Step runner s h a s' h') : s'.QuitKept runner h' := by
  constructor
  · intro t ht hquitting
    rw [hstep.isInLoopThread t]
    cases hstep.quitting hquitting with
    | inl hbefore =>
      have hstored := hk.stored t ht hbefore
      exact ⟨hstored.1.step hstep, fun own ↦ (hstored.2 own).step hstep⟩
    | inr hstore =>
      obtain ⟨rfl, top, hpc, hel⟩ := hstore
      have hintime := hok ht top
      have hstops : s'.Stops := by
        constructor
        · rw [hel]
        · rw [hpc]
          exact hintime.1
      refine ⟨hstops, fun own ↦ ⟨hstops, ?_⟩⟩
      rw [hpc, hel]
      exact hintime.2 own
  · intro hret
    cases hstep.quitReturned hret with
    | inl hbefore => exact (hk.returned hbefore).step hstep
    | inr hnow =>
      obtain ⟨t, ht, hquitting, hwakes⟩ := hnow
      have hstored := hk.stored t ht hquitting
      cases hwakes with
      | inl own => exact (hstored.2 own).step hstep
      | inr hevfd => exact ⟨hstored.1.step hstep, fun _ ↦ hevfd⟩

/-- In every state reached by steps that store in time. -/
theorem quitKept_of_reach {p : LoopSystem × LoopHistory}
    (hreach : ReachBy (noted runner) (fun p ↦ p.1.QuitsInTime runner) (fresh ctor) p) :
    p.1.QuitKept runner p.2 := by
  apply hreach.invariant (P := fun p ↦ p.1.QuitKept runner p.2)
  · constructor
    · intro t _ hquitting
      cases hquitting
    · intro hret
      cases hret
  · intro p a p' hp hok hstep
    exact hp.step hok (step_inversion hstep)

/-- A loop that has heard a `quit` has not lost it. -/
theorem Heard.not_lost (hs : s.Heard) : ¬ s.QuitLost h := by
  intro hlost
  obtain ⟨-, hpoll, hwaits⟩ := hlost
  cases hwaits with
  | inl hrun =>
    rw [hs.stops.1] at hrun
    cases hrun
  | inr hblocked => exact absurd hblocked.2 (Nat.ne_of_gt (hs.wakes hpoll))

/-! ### Where the condition fails -/

section

variable {p : LoopSystem × LoopHistory} {t : ThreadId} {rest : List CallPc}

/-- The store of a `quit`. -/
theorem noted_store (top : p.1.calls t = .quit :: rest) :
    noted runner p (.call t) =
      some ({ p.1.setCalls t (.quitTail :: rest) with el := { p.1.el with elQuit := true } },
        p.2.quit t) := by
  simp [withHistory, step, callStep, LoopHistory.note, top]

/-- The return of a `quit` of the thread that constructed the loop. -/
theorem noted_ret (top : p.1.calls t = .quitTail :: rest)
    (own : p.1.el.isInLoopThread t = true) :
    noted runner p (.call t) = some (p.1.setCalls t rest, p.2.ret runner t) := by
  simp [withHistory, step, callStep, LoopHistory.note, top, own]

/-- A `quit` of another thread goes on to wake the loop. -/
theorem noted_toWake (top : p.1.calls t = .quitTail :: rest)
    (foreign : p.1.el.isInLoopThread t = false) :
    noted runner p (.call t) = some (p.1.setCalls t (.wake :: rest), p.2) := by
  simp [withHistory, step, callStep, LoopHistory.note, top, foreign]

/-- The wake-up and the return. -/
theorem noted_wake (top : p.1.calls t = .wake :: rest) :
    noted runner p (.call t) =
      some ({ p.1.setCalls t rest with el := p.1.el.evfdWakeup }, p.2.ret runner t) := by
  simp [withHistory, step, callStep, LoopHistory.note, top]

/-- `loop()` is called. -/
theorem noted_start (idle : p.1.calls runner = []) (at_ : p.1.pc = .before) :
    noted runner p (.loop false) =
      some ({ p.1 with pc := .test, el := { p.1.el with elQuit := false } }, p.2) := by
  simp [withHistory, step, loopStep, LoopHistory.note, idle, at_]

/-- `epoll_wait` is called. -/
theorem noted_wait (idle : p.1.calls runner = []) (at_ : p.1.pc = .test)
    (run : p.1.el.elQuit = false) :
    noted runner p (.loop false) = some ({ p.1 with pc := .poll }, p.2) := by
  simp [withHistory, step, loopStep, LoopHistory.note, idle, at_, run]

/-- A `quit` that another thread is about to store can return before anything else happens. -/
theorem quit_returns (ht : t ≠ runner) (top : p.1.calls t = .quit :: rest) :
    ∃ q, Reach (noted runner) p q ∧ q.2.quitReturned = true ∧ q.1.pc = p.1.pc ∧
      q.1.el.elQuit = true ∧ q.1.calls runner = p.1.calls runner ∧
      (p.1.el.isInLoopThread t = true → q.1.el.evfd = p.1.el.evfd) := by
  have hstore : Reach (noted runner) p _ :=
    ReachBy.refl.tail (.call t) trivial (noted_store top)
  have hret : ((p.2.quit t).ret runner t).quitReturned = true := by
    simp [LoopHistory.ret, LoopHistory.quit, ht]
  have hother : ∀ (calls : ThreadId → List CallPc) stack,
      Function.update calls t stack runner = calls runner := by
    intro calls stack
    exact Function.update_of_ne (Ne.symm ht) stack calls
  cases hown : p.1.el.isInLoopThread t with
  | true =>
    refine ⟨_, hstore.tail (.call t) trivial (noted_ret (calls_setCalls_self _ t _) hown),
      hret, rfl, rfl, ?_, fun _ ↦ rfl⟩
    exact (hother _ rest).trans (hother p.1.calls _)
  | false =>
    have hwake := hstore.tail (.call t) trivial
      (noted_toWake (calls_setCalls_self _ t _) (by exact hown))
    refine ⟨_, hwake.tail (.call t) trivial (noted_wake (calls_setCalls_self _ t _)),
      hret, rfl, rfl, ?_, fun own ↦ ?_⟩
    · exact ((hother _ rest).trans (hother _ _)).trans (hother p.1.calls _)
    · cases own

/-- A `quit` that does not set `el_quit` in time can be lost: every such state can be continued
to one in which it is. -/
theorem untimely_quit_can_be_lost (idle : p.1.calls runner = [])
    (hlate : ¬ p.1.QuitsInTime runner (.call t)) :
    ∃ q, Reach (noted runner) p q ∧ q.1.QuitLost q.2 := by
  simp only [QuitsInTime, Classical.not_imp] at hlate
  obtain ⟨ht, hhead, huntimely⟩ := hlate
  obtain ⟨rest, top⟩ := List.head?_eq_some_iff.mp hhead
  obtain ⟨q, hq, hret, hpc, hquit, hcalls, hevfd⟩ := quit_returns ht top
  by_cases hbefore : p.1.pc = .before
  · -- `loop()` resets the flag and calls `epoll_wait`
    have hidle : q.1.calls runner = [] := hcalls.trans idle
    have hstart := hq.tail (.loop false) trivial (noted_start hidle (hpc.trans hbefore))
    refine ⟨_, hstart.tail (.loop false) trivial (noted_wait hidle rfl rfl), ?_⟩
    exact ⟨hret, rfl, Or.inl rfl⟩
  · -- `epoll_wait` blocks with `el_quit` set
    simp only [not_and, Classical.not_imp, Nat.not_lt, Nat.le_zero] at huntimely
    obtain ⟨own, hpoll, hzero⟩ := huntimely hbefore
    exact ⟨q, hq, hret, hpc.trans hpoll, Or.inr ⟨hquit, (hevfd own).trans hzero⟩⟩

end

end LoopSystem

/-! ### Runs -/

/-- In every run in which the other threads' `quit` sets `el_quit` in time, no `quit` is lost. -/
theorem quit_never_lost {ctor runner : ThreadId} {s : LoopSystem} {h : LoopHistory}
    (hreach : ReachBy (LoopSystem.noted runner) (fun p ↦ p.1.QuitsInTime runner)
      (LoopSystem.fresh ctor) (s, h)) : ¬ s.QuitLost h := by
  intro hlost
  have hheard := (LoopSystem.quitKept_of_reach hreach).returned hlost.1
  exact hheard.not_lost hlost

/-- The third thread quits while the loop is in `epoll_wait`. -/
def foreignQuit : List LoopAction :=
  [.loop false, .loop false, .quit 2, .call 2, .call 2, .call 2]

/-- It wakes the loop. -/
theorem foreign_quit_is_heard :
    ∃ p, run (LoopSystem.noted 1) (LoopSystem.fresh 0) foreignQuit = some p ∧
      p.2.quitReturned = true ∧ ¬ p.1.QuitLost p.2 := by
  obtain ⟨p, hrun, hret⟩ : ∃ p,
      run (LoopSystem.noted 1) (LoopSystem.fresh 0) foreignQuit = some p ∧
        p.2.quitReturned = true := ⟨_, rfl, rfl⟩
  have hok : Admits (LoopSystem.noted 1) (fun p ↦ p.1.QuitsInTime 1) (LoopSystem.fresh 0)
      foreignQuit := by decide
  exact ⟨p, hrun, hret, quit_never_lost (reachBy_of_run hrun hok)⟩

/-- The thread that constructed the loop quits while another runs it, in `epoll_wait`. -/
def ownersQuit : List LoopAction :=
  [.loop false, .loop false, .quit 0, .call 0, .call 0]

/-- Nothing wakes the loop. -/
theorem owners_quit_is_lost :
    ¬ ∀ (ctor runner : ThreadId) (s : LoopSystem) (h : LoopHistory),
      Reach (LoopSystem.noted runner) (LoopSystem.fresh ctor) (s, h) → ¬ s.QuitLost h := by
  intro hkept
  obtain ⟨s, h, hrun, hlost⟩ : ∃ s h,
      run (LoopSystem.noted 1) (LoopSystem.fresh 0) ownersQuit = some (s, h) ∧
        s.QuitLost h := ⟨_, _, rfl, rfl, rfl, Or.inr ⟨rfl, rfl⟩⟩
  exact hkept 0 1 s h (reach_of_run hrun) hlost

end ConcurrentServer.Net
