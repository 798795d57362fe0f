import ConcurrentServer.Base.Run
import Mathlib.Logic.Function.Basic

/-!
# The accesses to the list of connections

`src/net/acceptor.cpp:101–102`, `src/net/tcp_server.h:43–55`, `src/net/tcp_server.cpp:69–78`. Any
number of threads are in `do_accept`, from its `lock_guard` on, in `update_conn_timeout_time` and
in `do_clean`; an access to `ts_tcp_connections` takes several steps. The first statement of
`do_clean` names the type `mutex`: it declares a function, and is no step. Connections and threads
are named by numbers. What an iterator does in a list that another thread has shortened is
undefined in the source.
-/

namespace ConcurrentServer.Net
open ConcurrentServer.Base

/-- The callers of `add_new_tcp_conn`. -/
inductive AddCaller
  | doAccept
  | updateConnTimeoutTime
  deriving DecidableEq, Repr

/-- Where a thread is. -/
inductive ListPc
  /-- In none of the three functions. -/
  | idle
  /-- `do_accept`, before `lock_guard<mutex> lck(ac_server->ts_mutex)`. -/
  | lock (c : Nat)
  /-- `update_conn_timeout_time`, before `ts_timer.cancel(tcp_conn->get_timer_id())`. -/
  | cancel (c : Nat)
  /-- `add_new_tcp_conn`, before `ts_timer.run_after`. -/
  | runAfter (caller : AddCaller) (c : Nat)
  /-- `add_new_tcp_conn`, before `tcp_conn->set_timer_id(timer_id)`. -/
  | setTimerId (caller : AddCaller) (c : Nat)
  /-- `add_new_tcp_conn`, before `ts_tcp_connections.emplace_back(tcp_conn)`. -/
  | emplaceBack (caller : AddCaller) (c : Nat)
  /-- Inside `emplace_back`. -/
  | emplacing (caller : AddCaller) (c : Nat)
  /-- `do_accept`, before `ts_mutex` is released. -/
  | unlock
  /-- `do_clean`, before `ts_tcp_connections.begin()` and `end()`. -/
  | clean (c : Nat)
  /-- `do_clean`, before `i!=e` and `tcp_conn==*i`, with the positions of the iterators. -/
  | scan (c i e : Nat)
  /-- `do_clean`, before `ts_tcp_connections.erase(i)`. -/
  | erase (i : Nat)
  deriving DecidableEq, Repr

namespace ListPc

/-- The thread holds `ts_mutex`. -/
def holds : ListPc → Bool
  | .runAfter .doAccept _ | .setTimerId .doAccept _ | .emplaceBack .doAccept _
  | .emplacing .doAccept _ | .unlock => true
  | .runAfter .updateConnTimeoutTime _ | .setTimerId .updateConnTimeoutTime _
  | .emplaceBack .updateConnTimeoutTime _ | .emplacing .updateConnTimeoutTime _
  | .idle | .lock _ | .cancel _ | .clean _ | .scan _ _ _ | .erase _ => false

/-- The thread is between the first and the last step of an access. -/
def accesses : ListPc → Bool
  | .emplacing _ _ | .scan _ _ _ | .erase _ => true
  | .idle | .lock _ | .cancel _ | .runAfter _ _ | .setTimerId _ _ | .emplaceBack _ _ | .unlock
  | .clean _ => false

/-- The next step is the first of an access in `update_conn_timeout_time` or `do_clean`. -/
def beginsUnlocked : ListPc → Bool
  | .emplaceBack .updateConnTimeoutTime _ | .clean _ => true
  | .emplaceBack .doAccept _ | .idle | .lock _ | .cancel _ | .runAfter _ _ | .setTimerId _ _
  | .emplacing _ _ | .unlock | .scan _ _ _ | .erase _ => false

/-- The thread is in an access without `ts_mutex`. -/
def unlocked (pc : ListPc) : Bool := pc.accesses && !pc.holds

end ListPc

/-- The list with its mutex and the threads at work on it. -/
structure ListSystem where
  tsTcpConnections : List Nat
  tsMutex : Option Nat
  threads : Nat → ListPc

/-- What can happen next. -/
inductive ListAction
  /-- Thread `t` has accepted connection `c`. -/
  | doAccept (t c : Nat)
  /-- Thread `t` calls `update_conn_timeout_time`. -/
  | updateConnTimeoutTime (t c : Nat)
  /-- Thread `t` calls `do_clean`. -/
  | doClean (t c : Nat)
  /-- The next step of thread `t`. -/
  | thread (t : Nat)
  deriving DecidableEq, Repr

namespace ListSystem

/-- No connection and no thread. -/
def init : ListSystem := ⟨[], none, fun _ ↦ .idle⟩

/-- Thread `t` moves on. -/
def setThread (s : ListSystem) (t : Nat) (pc : ListPc) : ListSystem :=
  { s with threads := Function.update s.threads t pc }

/-- The next step of thread `t`. -/
def threadStep (s : ListSystem) (t : Nat) : Option ListSystem :=
  match s.threads t with
  | .idle => none
  | .lock c =>
    if s.tsMutex = none then some { s.setThread t (.runAfter .doAccept c) with tsMutex := some t }
    else none
  | .cancel c => some (s.setThread t (.runAfter .updateConnTimeoutTime c))
  | .runAfter caller c => some (s.setThread t (.setTimerId caller c))
  | .setTimerId caller c => some (s.setThread t (.emplaceBack caller c))
  | .emplaceBack caller c => some (s.setThread t (.emplacing caller c))
  | .emplacing caller c =>
    some { s.setThread t (if caller = .doAccept then .unlock else .idle) with
      tsTcpConnections := s.tsTcpConnections ++ [c] }
  | .unlock => some { s.setThread t .idle with tsMutex := none }
  | .clean c => some (s.setThread t (.scan c 0 s.tsTcpConnections.length))
  | .scan c i e =>
    if i = e then some (s.setThread t .idle)
    else if s.tsTcpConnections[i]? = some c then some (s.setThread t (.erase i))
    else some (s.setThread t (.scan c (i + 1) e))
  | .erase i =>
    some { s.setThread t .idle with tsTcpConnections := s.tsTcpConnections.eraseIdx i }

/-- A thread in none of the functions enters one. -/
def enter (s : ListSystem) (t : Nat) (pc : ListPc) : Option ListSystem :=
  if s.threads t = .idle then some (s.setThread t pc) else none

/-- The step function. -/
def step (s : ListSystem) : ListAction → Option ListSystem
  | .doAccept t c => s.enter t (.lock c)
  | .updateConnTimeoutTime t c => s.enter t (.cancel c)
  | .doClean t c => s.enter t (.clean c)
  | .thread t => s.threadStep t

variable {s s' : ListSystem} {a : ListAction}

/-- No two threads are in an access, and each that is holds `ts_mutex`. -/
structure Exclusive (s : ListSystem) : Prop where
  alone : ∀ t t', (s.threads t).accesses = true → (s.threads t').accesses = true → t = t'
  locked : ∀ t, (s.threads t).accesses = true → s.tsMutex = some t

/-- The step does not begin an access in `update_conn_timeout_time` or `do_clean`. -/
def OnlyAccepts (s : ListSystem) : ListAction → Prop
  | .thread t => (s.threads t).beginsUnlocked = false
  | .doAccept _ _ | .updateConnTimeoutTime _ _ | .doClean _ _ => True

instance : ∀ (s : ListSystem) (a : ListAction), Decidable (s.OnlyAccepts a)
  | s, .thread t => inferInstanceAs (Decidable ((s.threads t).beginsUnlocked = false))
  | _, .doAccept _ _ | _, .updateConnTimeoutTime _ _ | _, .doClean _ _ =>
    inferInstanceAs (Decidable True)

/-! ### Steps -/

/-- What the step of a thread from `pc` to `pc'` does with `ts_mutex`. -/
inductive MutexMove (s s' : ListSystem) (t : Nat) (pc pc' : ListPc) : Prop
  /-- It takes the mutex. -/
  | lock (before : pc.holds = false) (free : s.tsMutex = none) (after : pc'.holds = true)
      (mutex : s'.tsMutex = some t)
  /-- It releases the mutex. -/
  | unlock (before : pc.holds = true) (after : pc'.holds = false) (mutex : s'.tsMutex = none)
  /-- It does nothing with the mutex. -/
  | same (holds : pc'.holds = pc.holds) (mutex : s'.tsMutex = s.tsMutex)

/-- What a step does: thread `t` moves from `pc` to `pc'`. Its access is without the mutex when it
was so before, or when it begins in `update_conn_timeout_time` or `do_clean`. -/
structure Step (s : ListSystem) (a : ListAction) (s' : ListSystem) (t : Nat) (pc pc' : ListPc) :
    Prop where
  at_ : s.threads t = pc
  threads : s'.threads = Function.update s.threads t pc'
  mutex : MutexMove s s' t pc pc'
  only : s.OnlyAccepts a ↔ pc.beginsUnlocked = false
  kept : pc'.unlocked = true → pc.beginsUnlocked = true ∨ pc.unlocked = true
  begun : pc.beginsUnlocked = true → pc'.unlocked = true

/-- A thread outside the critical section that does not begin an access. -/
theorem Step.outside {t : Nat} {pc pc' : ListPc} (at_ : s.threads t = pc)
    (only : s.OnlyAccepts a ↔ pc.beginsUnlocked = false)
    (threads : s'.threads = Function.update s.threads t pc') (mutex : s'.tsMutex = s.tsMutex)
    (holds : pc'.holds = pc.holds) (begins : pc.beginsUnlocked = false)
    (unlocked : pc'.unlocked = true → pc.unlocked = true) : Step s a s' t pc pc' := by
  refine ⟨at_, threads, .same holds mutex, only, fun h ↦ Or.inr (unlocked h), ?_⟩
  intro hbegins
  rw [begins] at hbegins
  cases hbegins

/-- A step of a thread is admitted when it does not begin an access without the mutex. -/
theorem onlyAccepts_thread {t : Nat} {pc : ListPc} (at_ : s.threads t = pc) :
    s.OnlyAccepts (.thread t) ↔ pc.beginsUnlocked = false := by
  show (s.threads t).beginsUnlocked = false ↔ pc.beginsUnlocked = false
  rw [at_]

/-- The step of a thread. -/
theorem threadStep_inversion {t : Nat} (hstep : s.threadStep t = some s') :
    ∃ pc pc', Step s (.thread t) s' t pc pc' := by
  unfold threadStep at hstep
  split at hstep
  · cases hstep
  · next c at_ =>
    split at hstep
    · next free =>
      cases hstep
      refine ⟨_, _, at_, rfl, .lock rfl free rfl rfl, onlyAccepts_thread at_, ?_, ?_⟩
      · intro hunlocked
        cases hunlocked
      · intro hbegins
        cases hbegins
    · cases hstep
  · next c at_ =>
    cases hstep
    exact ⟨_, _, .outside at_ (onlyAccepts_thread at_) rfl rfl rfl rfl id⟩
  · next caller c at_ =>
    cases hstep
    exact ⟨_, _, .outside at_ (onlyAccepts_thread at_) rfl rfl (by cases caller <;> rfl) rfl id⟩
  · next caller c at_ =>
    cases hstep
    exact ⟨_, _, .outside at_ (onlyAccepts_thread at_) rfl rfl (by cases caller <;> rfl) rfl id⟩
  · next caller c at_ =>
    cases hstep
    refine ⟨_, _, at_, rfl, .same ?_ rfl, onlyAccepts_thread at_, ?_, ?_⟩
    · cases caller <;> rfl
    · cases caller <;> simp [ListPc.unlocked, ListPc.accesses, ListPc.holds,
        ListPc.beginsUnlocked]
    · cases caller <;> simp [ListPc.unlocked, ListPc.accesses, ListPc.holds,
        ListPc.beginsUnlocked]
  · next caller c at_ =>
    cases hstep
    cases caller with
    | doAccept => exact ⟨_, _, .outside at_ (onlyAccepts_thread at_) rfl rfl rfl rfl id⟩
    | updateConnTimeoutTime =>
      exact ⟨_, _, .outside at_ (onlyAccepts_thread at_) rfl rfl rfl rfl fun _ ↦ rfl⟩
  · next at_ =>
    cases hstep
    refine ⟨_, _, at_, rfl, .unlock rfl rfl rfl, onlyAccepts_thread at_, ?_, ?_⟩
    · intro hunlocked
      cases hunlocked
    · intro hbegins
      cases hbegins
  · next c at_ =>
    cases hstep
    exact ⟨_, _, at_, rfl, .same rfl rfl, onlyAccepts_thread at_, fun _ ↦ Or.inl rfl,
      fun _ ↦ rfl⟩
  · next c i e at_ =>
    split at hstep
    · cases hstep
      exact ⟨_, _, .outside at_ (onlyAccepts_thread at_) rfl rfl rfl rfl fun _ ↦ rfl⟩
    · split at hstep
      · cases hstep
        exact ⟨_, _, .outside at_ (onlyAccepts_thread at_) rfl rfl rfl rfl fun _ ↦ rfl⟩
      · cases hstep
        exact ⟨_, _, .outside at_ (onlyAccepts_thread at_) rfl rfl rfl rfl fun _ ↦ rfl⟩
  · next i at_ =>
    cases hstep
    exact ⟨_, _, .outside at_ (onlyAccepts_thread at_) rfl rfl rfl rfl fun _ ↦ rfl⟩

/-- A call. -/
theorem enter_inversion {t : Nat} {pc' : ListPc} (hstep : s.enter t pc' = some s')
    (only : s.OnlyAccepts a) (holds : pc'.holds = false) (unlocked : pc'.unlocked = false) :
    Step s a s' t .idle pc' := by
  unfold enter at hstep
  split at hstep
  · next at_ =>
    cases hstep
    refine .outside at_ ⟨fun _ ↦ rfl, fun _ ↦ only⟩ rfl rfl holds rfl ?_
    intro h
    rw [unlocked] at h
    cases h
  · cases hstep

/-- Every step is one of these. -/
theorem step_inversion (hstep : s.step a = some s') : ∃ t pc pc', Step s a s' t pc pc' := by
  cases a with
  | doAccept t c => exact ⟨t, _, _, enter_inversion hstep trivial rfl rfl⟩
  | updateConnTimeoutTime t c => exact ⟨t, _, _, enter_inversion hstep trivial rfl rfl⟩
  | doClean t c => exact ⟨t, _, _, enter_inversion hstep trivial rfl rfl⟩
  | thread t => exact ⟨t, threadStep_inversion hstep⟩

/-! ### The mutex -/

/-- `ts_mutex` is held by the thread that is in its critical section. -/
def Locked (s : ListSystem) : Prop := ∀ t, (s.threads t).holds = true ↔ s.tsMutex = some t

/-- Every step. -/
theorem Locked.step (h : s.Locked) {t : Nat} {pc pc' : ListPc} (hstep : Step s a s' t pc pc') :
    s'.Locked := by
  intro t'
  rw [hstep.threads]
  have hown := h t
  rw [hstep.at_] at hown
  by_cases heq : t' = t
  · rw [heq, Function.update_self]
    cases hstep.mutex with
    | lock before free after mutex =>
      rw [after, mutex]
      exact ⟨fun _ ↦ rfl, fun _ ↦ rfl⟩
    | unlock before after mutex =>
      rw [after, mutex]
      simp
    | same holds mutex =>
      rw [holds, mutex]
      exact hown
  · rw [Function.update_of_ne heq, h t']
    cases hstep.mutex with
    | lock before free after mutex =>
      rw [free, mutex]
      simp [Ne.symm heq]
    | unlock before after mutex =>
      rw [hown.mp before, mutex]
      simp [Ne.symm heq]
    | same holds mutex => rw [mutex]

/-- In every reached state. -/
theorem locked_of_reach (h : Reach step init s) : s.Locked := by
  apply h.invariant
  · intro t
    constructor <;> intro ht <;> cases ht
  · intro s a s' hs _ hstep
    obtain ⟨t, pc, pc', hmove⟩ := step_inversion hstep
    exact hs.step hmove

/-- With the mutex in order, the accesses exclude each other when none is without it. -/
theorem Locked.exclusive_iff (h : s.Locked) :
    s.Exclusive ↔ ∀ t, (s.threads t).unlocked = false := by
  constructor
  · intro hex t
    cases haccess : (s.threads t).accesses with
    | false => simp [ListPc.unlocked, haccess]
    | true =>
      have hholds := (h t).mpr (hex.locked t haccess)
      simp [ListPc.unlocked, hholds]
  · intro hnone
    have hlocked : ∀ t, (s.threads t).accesses = true → s.tsMutex = some t := by
      intro t haccess
      apply (h t).mp
      simpa [ListPc.unlocked, haccess] using hnone t
    refine ⟨?_, hlocked⟩
    intro t t' ht ht'
    have hsome : some t = some t' := (hlocked t ht).symm.trans (hlocked t' ht')
    exact Option.some.inj hsome

/-- Where no access is without the mutex, there is still none after a step exactly when the
step does not begin one. -/
theorem Step.unlocked_iff {t : Nat} {pc pc' : ListPc} (hstep : Step s a s' t pc pc')
    (hnone : ∀ t, (s.threads t).unlocked = false) :
    (∀ t, (s'.threads t).unlocked = false) ↔ s.OnlyAccepts a := by
  rw [hstep.only, hstep.threads]
  constructor
  · intro hafter
    have hmoved := hafter t
    rw [Function.update_self] at hmoved
    cases hbegins : pc.beginsUnlocked with
    | false => rfl
    | true =>
      rw [hstep.begun hbegins] at hmoved
      cases hmoved
  · intro hbegins t'
    by_cases heq : t' = t
    · rw [heq, Function.update_self]
      have hbefore := hnone t
      rw [hstep.at_] at hbefore
      cases hunlocked : pc'.unlocked with
      | false => rfl
      | true =>
        cases hstep.kept hunlocked with
        | inl hbegun => rw [← hbegun, hbegins]
        | inr hkept => rw [← hkept, hbefore]
    · rw [Function.update_of_ne heq]
      exact hnone t'

/-- Nothing stops a `do_clean`: whatever access another thread is in, it overlaps it. -/
theorem clean_overlaps {t t' : Nat} (c : Nat) (haccess : (s.threads t).accesses = true)
    (idle : s.threads t' = .idle) :
    ∃ s', run ListSystem.step s [.doClean t' c, .thread t'] = some s' ∧
      (s'.threads t).accesses = true ∧ (s'.threads t').accesses = true := by
  have hne : t ≠ t' := by
    intro heq
    rw [heq, idle] at haccess
    cases haccess
  refine ⟨(s.setThread t' (.clean c)).setThread t' (.scan c 0 s.tsTcpConnections.length), ?_, ?_⟩
  · simp [run, step, enter, idle, threadStep, setThread]
  · simp only [setThread, Function.update_of_ne hne, Function.update_self]
    exact ⟨haccess, rfl⟩

end ListSystem

/-- In every run in which only `do_accept` accesses the list, the accesses exclude each other; and
the first other access is made without `ts_mutex`. -/
theorem list_accesses_exclude {s : ListSystem}
    (h : ReachBy ListSystem.step ListSystem.OnlyAccepts .init s) :
    s.Exclusive ∧ ∀ a s', s.step a = some s' → (s'.Exclusive ↔ s.OnlyAccepts a) := by
  have hlocked := ListSystem.locked_of_reach h.reach
  have hnone : ∀ t, (s.threads t).unlocked = false := by
    apply h.invariant (P := fun s ↦ ∀ t, (s.threads t).unlocked = false)
    · exact fun _ ↦ rfl
    · intro s a s' hs hok hstep
      obtain ⟨t, pc, pc', hmove⟩ := ListSystem.step_inversion hstep
      exact (hmove.unlocked_iff hs).mpr hok
  refine ⟨hlocked.exclusive_iff.mpr hnone, ?_⟩
  intro a s' hstep
  obtain ⟨t, pc, pc', hmove⟩ := ListSystem.step_inversion hstep
  rw [(hlocked.step hmove).exclusive_iff, hmove.unlocked_iff hnone]

/-- The acceptor's thread 0 accepts a connection, and is adding a second one. -/
def secondAccept : List ListAction :=
  [.doAccept 0 0, .thread 0, .thread 0, .thread 0, .thread 0, .thread 0, .thread 0,
    .doAccept 0 1, .thread 0, .thread 0, .thread 0, .thread 0]

/-- It holds the mutex. -/
theorem second_accept_excludes :
    ∃ s, run ListSystem.step .init secondAccept = some s ∧
      (s.Exclusive ∧ ∀ a s', s.step a = some s' → (s'.Exclusive ↔ s.OnlyAccepts a)) := by
  obtain ⟨s, hrun⟩ : ∃ s, run ListSystem.step .init secondAccept = some s := ⟨_, rfl⟩
  have hok : Admits ListSystem.step ListSystem.OnlyAccepts .init secondAccept := by decide
  exact ⟨s, hrun, list_accesses_exclude (reachBy_of_run hrun hok)⟩

/-- While it does so, the first connection is closed on the thread of its loop. -/
def closeDuringAccept : List ListAction := secondAccept ++ [.doClean 1 0, .thread 1]

/-- `do_clean` walks the list that `emplace_back` is changing. -/
theorem clean_overlaps_accept :
    ¬ ∀ s, Reach ListSystem.step .init s → s.Exclusive := by
  intro hall
  obtain ⟨s, hrun, hemplace, hscan⟩ : ∃ s,
      run ListSystem.step .init closeDuringAccept = some s ∧
        (s.threads 0).accesses = true ∧ (s.threads 1).accesses = true := ⟨_, rfl, rfl, rfl⟩
  have hex := hall s (reach_of_run hrun)
  exact absurd (hex.alone 0 1 hemplace hscan) (by decide)

end ConcurrentServer.Net
