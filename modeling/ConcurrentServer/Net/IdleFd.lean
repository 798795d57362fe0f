import ConcurrentServer.Base.Descriptors
import ConcurrentServer.Base.Run
import ConcurrentServer.Net.Acceptor

/-!
# The reserve descriptor

`src/net/acceptor.cpp:19–51, 64–105`. The acceptor keeps `/dev/null` open, so that it can close
it and take a client when `accept` fails with `EMFILE`. Here `do_accept` runs among threads that
open and close descriptors of their own. As on Linux, `accept` looks for a free descriptor before
it looks at the backlog. The reserve is given back twice before `open` asks for it again, and
nothing keeps another thread from taking it in between.
-/

namespace ConcurrentServer.Net
open ConcurrentServer.Base

/-- Who has opened a descriptor. -/
inductive FdOwner
  | acceptor
  | elsewhere
  deriving DecidableEq, Repr

/-- The acceptor, the descriptors of its process and the clients that wait. -/
structure IdleFd (Addr : Type) where
  acceptor : Acceptor Addr
  fds : Descriptors FdOwner
  backlog : List Addr

/-- What can happen next. -/
inductive IdleAction (Addr : Type)
  /-- The event loop calls `do_accept`. -/
  | enter
  /-- The pending `accept` returns. -/
  | accept
  /-- The pending `accept` fails with `errno` `e`, which is neither `EMFILE` nor `EAGAIN`. -/
  | interrupt (e : Errno)
  /-- The pending `close` returns. -/
  | close
  /-- The pending `open` returns. -/
  | openIdle
  /-- The accepted connection is made and added. -/
  | create
  /-- A client connects. -/
  | arrive (addr : Addr)
  /-- Another thread opens a descriptor. -/
  | opens
  /-- Another thread closes a descriptor. -/
  | closes (fd : Nat)

variable {Addr : Type}

/-- Whose descriptor the pending `accept` makes. -/
def DoAcceptPc.owner : DoAcceptPc Addr → FdOwner
  | .acceptIdle => .acceptor
  | _ => .elsewhere

namespace IdleFd

/-- A new descriptor of the acceptor, or `EMFILE`. -/
def openFd (fds : Descriptors FdOwner) : Except Errno Nat × Descriptors FdOwner :=
  match fds.take .acceptor with
  | none => (.error .emfile, fds)
  | some (fd, fds') => (.ok fd, fds')

/-- The constructor of the acceptor: the socket, then `/dev/null`; `src/net/acceptor.h:24–30`. -/
def init (fds : Descriptors FdOwner) : Option (IdleFd Addr) :=
  let listenFd := openFd fds
  let idleFd := openFd listenFd.2
  (Acceptor.init listenFd.1 idleFd.1).map fun ac ↦ ⟨ac, idleFd.2, []⟩

/-- The step function, for a listening socket of the given type. -/
def step (type : Nat) (s : IdleFd Addr) : IdleAction Addr → Option (IdleFd Addr)
  | .enter => s.acceptor.enter.map fun ac ↦ { s with acceptor := ac }
  | .accept =>
    match s.fds.take s.acceptor.pc.owner with
    | none => (s.acceptor.acceptReturns (.error .emfile)).map fun ac ↦ { s with acceptor := ac }
    | some (fd, fds) =>
      match s.backlog with
      | [] =>
        if nonBlocking type then
          (s.acceptor.acceptReturns (.error .eagain)).map fun ac ↦ { s with acceptor := ac }
        else none
      | addr :: rest =>
        (s.acceptor.acceptReturns (.ok ⟨fd, addr⟩)).map fun ac ↦ ⟨ac, fds, rest⟩
  | .interrupt e =>
    if e = .eintr ∨ e = .other then
      (s.acceptor.acceptReturns (.error e)).map fun ac ↦ { s with acceptor := ac }
    else none
  | .close =>
    s.acceptor.closeReturns.map fun ac ↦
      { s with acceptor := ac, fds := s.fds.close s.acceptor.acIdleFd }
  | .openIdle =>
    (s.acceptor.openReturns (openFd s.fds).1).map fun ac ↦
      { s with acceptor := ac, fds := (openFd s.fds).2 }
  | .create => s.acceptor.created.map fun r ↦ { s with acceptor := r.1 }
  | .arrive addr => some { s with backlog := s.backlog ++ [addr] }
  | .opens => (s.fds.take .elsewhere).map fun r ↦ { s with fds := r.2 }
  | .closes fd =>
    if s.fds.owner fd = some .elsewhere then some { s with fds := s.fds.close fd } else none

/-- The steps of the acceptor and of the threads around it. -/
inductive Step (s : IdleFd Addr) : IdleAction Addr → IdleFd Addr → Prop
  | enter (pc : s.acceptor.pc = .outside) :
      Step s .enter { s with acceptor := { s.acceptor with pc := .accept } }
  | fail (a : IdleAction Addr) (e : Errno) (call : a = .accept ∨ a = .interrupt e)
      (pc : s.acceptor.pc = .accept) :
      Step s a { s with acceptor := { s.acceptor with pc := afterAccept (.error e) } }
  | failIdle (a : IdleAction Addr) (e : Errno) (call : a = .accept ∨ a = .interrupt e)
      (pc : s.acceptor.pc = .acceptIdle) :
      Step s a { s with acceptor := { s.acceptor with acIdleFd := -1, pc := .closeAccepted } }
  | accept (fd : Nat) (addr : Addr) (fds : Descriptors FdOwner) (rest : List Addr)
      (pc : s.acceptor.pc = .accept) (new : s.fds.take .elsewhere = some (fd, fds)) :
      Step s .accept ⟨{ s.acceptor with pc := .create ⟨fd, addr⟩ }, fds, rest⟩
  | acceptIdle (fd : Nat) (fds : Descriptors FdOwner) (rest : List Addr)
      (pc : s.acceptor.pc = .acceptIdle) (new : s.fds.take .acceptor = some (fd, fds)) :
      Step s .accept ⟨{ s.acceptor with acIdleFd := fd, pc := .closeAccepted }, fds, rest⟩
  | closeIdle (pc : s.acceptor.pc = .closeIdle) :
      Step s .close
        { s with
          acceptor := { s.acceptor with pc := .acceptIdle }
          fds := s.fds.close s.acceptor.acIdleFd }
  | closeAccepted (pc : s.acceptor.pc = .closeAccepted) :
      Step s .close
        { s with
          acceptor := { s.acceptor with pc := .openIdle }
          fds := s.fds.close s.acceptor.acIdleFd }
  | openIdle (pc : s.acceptor.pc = .openIdle) :
      Step s .openIdle
        { s with
          acceptor :=
            { s.acceptor with
              acIdleFd := returned Int.ofNat (openFd s.fds).1
              pc := .accept }
          fds := (openFd s.fds).2 }
  | create (conn : Accepted Addr) (pc : s.acceptor.pc = .create conn) :
      Step s .create { s with acceptor := { s.acceptor with pc := .accept } }
  | arrive (addr : Addr) : Step s (.arrive addr) { s with backlog := s.backlog ++ [addr] }
  | opens (fd : Nat) (fds : Descriptors FdOwner) (new : s.fds.take .elsewhere = some (fd, fds)) :
      Step s .opens { s with fds := fds }
  | closes (fd : Nat) (owner : s.fds.owner fd = some .elsewhere) :
      Step s (.closes fd) { s with fds := s.fds.close fd }

variable {type : Nat} {s t : IdleFd Addr} {a : IdleAction Addr}

/-- A failed `accept` is one of two steps. -/
private theorem step_of_fail {e : Errno} {ac : Acceptor Addr}
    (call : a = .accept ∨ a = .interrupt e)
    (h : s.acceptor.acceptReturns (.error e) = some ac) : Step s a { s with acceptor := ac } := by
  rcases Acceptor.acceptReturns_eq_some.mp h with ⟨hpc, rfl⟩ | ⟨hpc, rfl⟩
  · exact .fail a e call hpc
  · exact .failIdle a e call hpc

/-- Every step is one of these. -/
theorem step_inversion (h : step type s a = some t) : Step s a t := by
  cases a with
  | enter =>
    obtain ⟨ac, hac, rfl⟩ := Option.map_eq_some_iff.mp h
    obtain ⟨hpc, rfl⟩ := Acceptor.enter_eq_some.mp hac
    exact .enter hpc
  | accept =>
    simp only [step] at h
    split at h
    · obtain ⟨ac, hac, rfl⟩ := Option.map_eq_some_iff.mp h
      exact step_of_fail (Or.inl rfl) hac
    · next fd fds hnew =>
      split at h
      · split at h
        · obtain ⟨ac, hac, rfl⟩ := Option.map_eq_some_iff.mp h
          exact step_of_fail (Or.inl rfl) hac
        · cases h
      · next addr rest hbacklog =>
        obtain ⟨ac, hac, rfl⟩ := Option.map_eq_some_iff.mp h
        rcases Acceptor.acceptReturns_eq_some.mp hac with ⟨hpc, rfl⟩ | ⟨hpc, rfl⟩
        · rw [hpc] at hnew
          exact .accept fd addr fds rest hpc hnew
        · rw [hpc] at hnew
          exact .acceptIdle fd fds rest hpc hnew
  | interrupt e =>
    simp only [step] at h
    split at h
    · obtain ⟨ac, hac, rfl⟩ := Option.map_eq_some_iff.mp h
      exact step_of_fail (Or.inr rfl) hac
    · cases h
  | close =>
    obtain ⟨ac, hac, rfl⟩ := Option.map_eq_some_iff.mp h
    rcases Acceptor.closeReturns_eq_some.mp hac with ⟨hpc, rfl⟩ | ⟨hpc, rfl⟩
    · exact .closeIdle hpc
    · exact .closeAccepted hpc
  | openIdle =>
    obtain ⟨ac, hac, rfl⟩ := Option.map_eq_some_iff.mp h
    obtain ⟨hpc, rfl⟩ := Acceptor.openReturns_eq_some.mp hac
    exact .openIdle hpc
  | create =>
    obtain ⟨⟨ac, conn⟩, hac, rfl⟩ := Option.map_eq_some_iff.mp h
    obtain ⟨hpc, rfl⟩ := Acceptor.created_eq_some.mp hac
    exact .create conn hpc
  | arrive addr =>
    cases h
    exact .arrive addr
  | opens =>
    obtain ⟨⟨fd, fds⟩, hnew, rfl⟩ := Option.map_eq_some_iff.mp h
    exact .opens fd fds hnew
  | closes fd =>
    simp only [step] at h
    split at h
    · next howner =>
      cases h
      exact .closes fd howner
    · cases h

/-! ### The reserve -/

/-- `fd` is an open descriptor of the acceptor. -/
def Owned (fds : Descriptors FdOwner) (fd : Int) : Prop :=
  ∃ n : Nat, fd = n ∧ fds.owner n = some .acceptor

/-- At the start of an iteration `ac_idle_fd` is an open descriptor of the acceptor. -/
def Reserved (s : IdleFd Addr) : Prop :=
  s.acceptor.pc = .accept → Owned s.fds s.acceptor.acIdleFd

/-- Some descriptor is free when `do_accept` comes to its `open`. -/
def SlotLeft (s : IdleFd Addr) : IdleAction Addr → Prop
  | .openIdle => s.fds.Free
  | _ => True

instance (s : IdleFd Addr) (a : IdleAction Addr) : Decidable (s.SlotLeft a) :=
  match a with
  | .openIdle => inferInstanceAs (Decidable s.fds.Free)
  | .enter | .accept | .interrupt _ | .close | .create | .arrive _ | .opens | .closes _ =>
    inferInstanceAs (Decidable True)

/-- Inside the `EMFILE` branch, between the first `close` and the `open`. -/
def inWindow : DoAcceptPc Addr → Bool
  | .acceptIdle | .closeAccepted | .openIdle => true
  | _ => false

/-- The reserve is open except inside that window. -/
def Holds (s : IdleFd Addr) : Prop :=
  inWindow s.acceptor.pc = false → Owned s.fds s.acceptor.acIdleFd

/-- What is open stays open when another descriptor is opened. -/
theorem Owned.take {fds fds' : Descriptors FdOwner} {fd : Int} {n : Nat} {o : FdOwner}
    (h : Owned fds fd) (hnew : fds.take o = some (n, fds')) : Owned fds' fd := by
  obtain ⟨m, hm, howner⟩ := h
  exact ⟨m, hm, Descriptors.owner_of_take hnew howner⟩

/-- What is open stays open when somebody else closes a descriptor. -/
theorem Owned.close {fds : Descriptors FdOwner} {fd : Int} {n : Nat} (h : Owned fds fd)
    (hn : fds.owner n = some .elsewhere) : Owned (fds.close n) fd := by
  obtain ⟨m, hm, howner⟩ := h
  refine ⟨m, hm, ?_⟩
  rw [Descriptors.owner_close_of_ne]
  · exact howner
  · intro heq
    rw [Int.ofNat_inj.mp heq, hn] at howner
    cases howner

/-- A new descriptor belongs to the acceptor exactly when one was free. -/
theorem owned_openFd_iff {fds : Descriptors FdOwner} :
    Owned (openFd fds).2 (returned Int.ofNat (openFd fds).1) ↔ fds.Free := by
  unfold openFd
  cases hnew : fds.take .acceptor with
  | none =>
    have hfull := Descriptors.take_eq_none_iff.mp hnew
    simp only [returned, hfull, iff_false]
    rintro ⟨n, hn, -⟩
    omega
  | some r =>
    obtain ⟨fd, fds'⟩ := r
    have hfree : fds.Free := by
      by_contra hfull
      rw [Descriptors.take_eq_none_iff.mpr hfull] at hnew
      cases hnew
    simp only [returned, hfree, iff_true]
    refine ⟨fd, rfl, ?_⟩
    rw [(Descriptors.take_eq_some hnew).2, Function.update_self]

/-- Nothing can be opened when nothing is free. -/
theorem openFd_of_full {fds : Descriptors FdOwner} (h : ¬ fds.Free) :
    openFd fds = (.error .emfile, fds) := by
  simp only [openFd, Descriptors.take_eq_none_iff.mpr h]

/-- What `open` has returned is −1 when nothing was free. -/
theorem free_of_openFd {fds : Descriptors FdOwner}
    (h : 0 ≤ returned Int.ofNat (openFd fds).1) : fds.Free := by
  by_contra hfull
  rw [openFd_of_full hfull] at h
  have hneg : (0 : Int) ≤ -1 := h
  omega

/-- The constructor leaves the reserve open. -/
theorem holds_init {fds : Descriptors FdOwner} (h : init fds = some s) : s.Holds := by
  obtain ⟨ac, hac, rfl⟩ := Option.map_eq_some_iff.mp h
  obtain ⟨hasserts, rfl⟩ := Acceptor.init_eq_some.mp hac
  intro _
  exact owned_openFd_iff.mpr (free_of_openFd hasserts.2)

/-- Where the reserve is open outside the window it is open at the start of an iteration. -/
theorem Holds.reserved (h : s.Holds) : s.Reserved := by
  intro hpc
  apply h
  rw [hpc]
  rfl

/-- A step keeps the reserve if a descriptor is free when it is to be opened again. -/
theorem Holds.step (h : s.Holds) (hok : s.SlotLeft a) (hstep : Step s a t) : t.Holds := by
  cases hstep with
  | enter pc | create conn pc =>
    intro _
    exact h (by rw [pc]; rfl)
  | fail a e call pc =>
    intro _
    exact h (by rw [pc]; rfl)
  | accept fd addr fds rest pc new =>
    intro _
    exact (h (by rw [pc]; rfl)).take new
  | openIdle pc =>
    intro _
    exact owned_openFd_iff.mpr hok
  | failIdle a e call pc | acceptIdle fd fds rest pc new | closeIdle pc | closeAccepted pc =>
    intro hpc
    cases hpc
  | arrive addr => exact h
  | opens fd fds new =>
    intro hpc
    exact (h hpc).take new
  | closes fd owner =>
    intro hpc
    exact (h hpc).close owner

/-- After a step the reserve is open at the start of the iteration exactly when a descriptor was
free for it. -/
theorem Holds.reserved_iff (h : s.Holds) (hstep : Step s a t) : t.Reserved ↔ s.SlotLeft a := by
  constructor
  · intro hreserved
    cases hstep with
    | openIdle pc => exact owned_openFd_iff.mp (hreserved rfl)
    | fail a e call pc | failIdle a e call pc => rcases call with rfl | rfl <;> trivial
    | _ => trivial
  · intro hok
    exact (h.step hok hstep).reserved

/-! ### An undisturbed window -/

/-- No other thread opens a descriptor inside the window. -/
def Undisturbed (s : IdleFd Addr) : IdleAction Addr → Prop
  | .opens => inWindow s.acceptor.pc = false
  | _ => True

/-- What the window rests on: the descriptor that was given back, or the client's. -/
structure Spare (s : IdleFd Addr) : Prop where
  holds : s.Holds
  free : inWindow s.acceptor.pc = true → s.fds.Free ∨
    s.acceptor.pc = .closeAccepted ∧ Owned s.fds s.acceptor.acIdleFd

/-- A closed descriptor is free. -/
theorem Owned.free_close {fds : Descriptors FdOwner} {fd : Int} (h : Owned fds fd) :
    (fds.close fd).Free := by
  obtain ⟨n, rfl, howner⟩ := h
  exact Descriptors.free_close howner

/-- Nobody takes the spare descriptor in a window that is not disturbed. -/
theorem Spare.step (h : s.Spare) (hok : s.Undisturbed a) (hstep : Step s a t) : t.Spare := by
  have hslot : s.SlotLeft a := by
    cases hstep with
    | openIdle pc =>
      rcases h.free (by rw [pc]; rfl) with hfree | ⟨hpc, -⟩
      · exact hfree
      · rw [pc] at hpc
        cases hpc
    | fail a e call pc | failIdle a e call pc => rcases call with rfl | rfl <;> trivial
    | _ => trivial
  refine ⟨h.holds.step hslot hstep, ?_⟩
  cases hstep with
  | enter pc | create conn pc | accept fd addr fds rest pc new | openIdle pc =>
    intro hpc
    cases hpc
  | fail a e call pc =>
    intro hpc
    cases e <;> cases hpc
  | failIdle a e call pc =>
    intro _
    rcases h.free (by rw [pc]; rfl) with hfree | ⟨hpc, -⟩
    · exact Or.inl hfree
    · rw [pc] at hpc
      cases hpc
  | acceptIdle fd fds rest pc new =>
    intro _
    refine Or.inr ⟨rfl, fd, rfl, ?_⟩
    show fds.owner fd = some .acceptor
    rw [(Descriptors.take_eq_some new).2, Function.update_self]
  | closeIdle pc =>
    intro _
    exact Or.inl (h.holds (by rw [pc]; rfl)).free_close
  | closeAccepted pc =>
    intro _
    rcases h.free (by rw [pc]; rfl) with hfree | ⟨-, howned⟩
    · exact Or.inl (hfree.close _)
    · exact Or.inl howned.free_close
  | arrive addr => exact h.free
  | opens fd fds new =>
    intro hpc
    rw [Undisturbed] at hok
    have hopen : inWindow s.acceptor.pc = true := hpc
    rw [hok] at hopen
    cases hopen
  | closes fd owner =>
    intro hpc
    rcases h.free hpc with hfree | ⟨hclose, howned⟩
    · exact Or.inl (hfree.close _)
    · exact Or.inr ⟨hclose, howned.close owner⟩

/-- If no other thread opens a descriptor inside the window, the reserve is open at the start of
every iteration. -/
theorem reserved_of_undisturbed {fds : Descriptors FdOwner} {s₀ : IdleFd Addr}
    (hinit : init fds = some s₀) (h : ReachBy (IdleFd.step type) Undisturbed s₀ s) :
    s.Reserved := by
  have hspare : s.Spare := by
    apply h.invariant
    · refine ⟨holds_init hinit, ?_⟩
      intro hpc
      obtain ⟨ac, hac, rfl⟩ := Option.map_eq_some_iff.mp hinit
      obtain ⟨-, rfl⟩ := Acceptor.init_eq_some.mp hac
      cases hpc
    · intro u a t hu hok hstep
      exact hu.step hok (step_inversion hstep)
  exact hspare.holds.reserved

/-- Without the reserve, an iteration on a full table leads back to where it began. -/
theorem spins_on_full (hpc : s.acceptor.pc = .accept) (hidle : s.acceptor.acIdleFd = -1)
    (hfull : ¬ s.fds.Free) :
    run (IdleFd.step type) s [.accept, .close, .accept, .close, .openIdle] = some s := by
  obtain ⟨⟨listenFd, idleFd, pc⟩, fds, backlog⟩ := s
  cases hpc
  cases hidle
  have hopen : openFd fds = (.error .emfile, fds) := openFd_of_full hfull
  have hclose : fds.close (-1) = fds := rfl
  simp [run, IdleFd.step, Acceptor.acceptReturns, Acceptor.closeReturns, Acceptor.openReturns,
    DoAcceptPc.owner, Descriptors.take_eq_none_iff.mpr hfull, afterAccept, returned, hopen, hclose]

end IdleFd

/-- As long as a descriptor is free whenever `do_accept` opens `/dev/null` again, `ac_idle_fd` is
an open descriptor of the acceptor at the start of every iteration, whatever other threads do; and
a further step keeps it so exactly when a descriptor is free for the `open` that it makes. -/
theorem reserve_kept_while_slot_left {type : Nat} {fds : Descriptors FdOwner}
    {s₀ s : IdleFd Addr} (hinit : IdleFd.init fds = some s₀)
    (h : ReachBy (IdleFd.step type) IdleFd.SlotLeft s₀ s) :
    s.Reserved ∧ ∀ a t, s.step type a = some t → (t.Reserved ↔ s.SlotLeft a) := by
  have hholds : s.Holds := by
    apply h.invariant
    · exact IdleFd.holds_init hinit
    · intro u a t hu hok hstep
      exact hu.step hok (IdleFd.step_inversion hstep)
  refine ⟨hholds.reserved, ?_⟩
  intro a t hstep
  exact hholds.reserved_iff (IdleFd.step_inversion hstep)

/-- A process with three descriptors in use and three left. -/
def threeLeft : Descriptors FdOwner where
  limit := 6
  owner := fun fd ↦ if fd < 3 then some .elsewhere else none
  owner_of_le := by
    intro fd hfd
    rw [if_neg (by omega)]

/-- The acceptor of that process: 3 is the socket, 4 the reserve. -/
def ofThreeLeft : IdleFd Nat := (IdleFd.init threeLeft).get (by decide +kernel)

/-- That acceptor has been constructed. -/
theorem init_threeLeft : IdleFd.init threeLeft = some ofThreeLeft := (Option.some_get _).symm

/-- The last descriptor is taken, a client comes, and `do_accept` gets `EMFILE` and starts over.
Inside the window other threads do as `during` says. -/
def emfileRun (during : List (IdleAction Nat)) : List (IdleAction Nat) :=
  [.opens, .arrive 80, .enter, .accept, .close] ++ during ++ [.accept, .close, .openIdle]

/-- Nobody takes the slot, and the reserve is open again. -/
theorem reserve_kept_after_emfile :
    ∃ s, run (IdleFd.step acListenType) ofThreeLeft (emfileRun []) = some s ∧
      s.Reserved ∧ ∀ a t, s.step acListenType a = some t → (t.Reserved ↔ s.SlotLeft a) := by
  have hrun : (run (IdleFd.step acListenType) ofThreeLeft (emfileRun [])).isSome := by
    decide +kernel
  have hok : Admits (IdleFd.step acListenType) IdleFd.SlotLeft ofThreeLeft (emfileRun []) := by
    decide +kernel
  obtain ⟨s, hs⟩ := Option.isSome_iff_exists.mp hrun
  exact ⟨s, hs, reserve_kept_while_slot_left init_threeLeft (reachBy_of_run hs hok)⟩

/-- Another thread opens a descriptor inside the window: the inner `accept` and the `open` fail,
and the next iteration starts with −1. -/
theorem window_taken_by_other_thread :
    ¬ ∀ (fds : Descriptors FdOwner) (s₀ s : IdleFd Nat), IdleFd.init fds = some s₀ →
      Reach (IdleFd.step acListenType) s₀ s → s.Reserved := by
  intro hclaim
  have hrun : (run (IdleFd.step acListenType) ofThreeLeft (emfileRun [.opens])).map
      (fun s ↦ s.acceptor) = some ⟨3, -1, .accept⟩ := by
    decide +kernel
  obtain ⟨s, hs, hacceptor⟩ := Option.map_eq_some_iff.mp hrun
  have hreserved := hclaim threeLeft ofThreeLeft s init_threeLeft (reach_of_run hs)
  unfold IdleFd.Reserved at hreserved
  rw [hacceptor] at hreserved
  obtain ⟨n, hn, -⟩ := hreserved rfl
  have hneg : (-1 : Int) = n := hn
  omega

end ConcurrentServer.Net
