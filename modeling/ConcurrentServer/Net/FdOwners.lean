import ConcurrentServer.Net.CloseOnce

/-!
# Who owns a descriptor

`src/net/acceptor.cpp:91–103`, `src/net/tcp_conn.cpp:99–113`. A connection owns the descriptor that
`accept` returned until `do_close` calls `close` on it. The body of `do_close` may run again on a
closed connection, and then gives nothing back; where no two threads are inside it for one
connection at a time, every open descriptor has one owner and is closed by it alone.
-/

namespace ConcurrentServer.Net
open ConcurrentServer.Base

/-- Inside the body of `do_close`, after its first statement and before its end. -/
def ClosePc.Inside (p : ClosePc) : Prop := p ≠ .enter ∧ p ≠ .ret

instance (p : ClosePc) : Decidable p.Inside := inferInstanceAs (Decidable (_ ∧ _))

/-- What the next statement of `do_close` goes by, of a connection whose `tc_fd` is `fd`. -/
def ClosePc.Sound (fd : Int) : ClosePc → Prop
  | .dropFd fd' => fd = fd'
  | .closeFd _ | .doClean _ => fd = -1
  | _ => True

namespace Server

/-- Connection `c` owns the descriptor: it is its `tc_fd`, or about to be closed. -/
def Holds (s : Server) (c : Nat) (fd : Int) : Prop :=
  c < s.connCount ∧ 0 ≤ fd ∧
    ((s.conns c).tcFd = fd ∨ ∃ q, s.closing q = some (c, .closeFd fd))

/-- The condition on a step: it enters `do_close` of a connection while no thread is inside it. -/
structure ClosesApart (s : Server) (a : ServerAction) : Prop where
  io : ∀ c ∈ s.closeEntered a, ∀ l < s.tsThreadNum, ∀ x ∈ (s.io l).closing?,
    x.1 = c → ¬ x.2.Inside
  timer : ∀ c ∈ s.closeEntered a, ∀ k < s.tsTimer.tmCount, ∀ tn ∈ s.tsTimer.nodes k,
    ∀ x ∈ tn.closing?, x.1 = c → ¬ x.2.Inside

instance (s : Server) (a : ServerAction) : Decidable (s.ClosesApart a) :=
  decidable_of_iff
    ((∀ c ∈ s.closeEntered a, ∀ l < s.tsThreadNum, ∀ x ∈ (s.io l).closing?,
        x.1 = c → ¬ x.2.Inside) ∧
      ∀ c ∈ s.closeEntered a, ∀ k < s.tsTimer.tmCount, ∀ tn ∈ s.tsTimer.nodes k,
        ∀ x ∈ tn.closing?, x.1 = c → ¬ x.2.Inside)
    ⟨fun h ↦ ⟨h.1, h.2⟩, fun h ↦ ⟨h.1, h.2⟩⟩

/-- Every open descriptor is the eventfd of a loop or owned by one connection, and one thread at
most is at work on giving it back. -/
structure Owners (n : Nat) (elEvfd : Nat → Int) (s : Server) : Prop where
  place : ∀ q c p, s.closing q = some (c, p) → p.Sound (s.conns c).tcFd
  single : ∀ q q' c p p', s.closing q = some (c, p) → s.closing q' = some (c, p') →
    p.Inside → p'.Inside → q = q'
  clean : ∀ c, 0 < (s.conns c).closed → ∀ fd, ¬ s.Holds c fd
  fds : ∀ fd, 0 ≤ fd → (s.fdOpen fd = true ↔ (∃ l < n, elEvfd l = fd) ∨ ∃ c, s.Holds c fd)
  apart : ∀ c c' fd, s.Holds c fd → s.Holds c' fd → c = c'
  events : ∀ c fd, s.Holds c fd → ¬ ∃ l < n, elEvfd l = fd

variable {s t : Server} {a : ServerAction} {n : Nat} {elEvfd : Nat → Int}

/-- Before the first step. -/
theorem owners_init (n : Nat) (elEvfd : Nat → Int) : (init n elEvfd).Owners n elEvfd where
  place q c p h := by cases q <;> cases h
  single q _ _ _ _ h := by cases q <;> cases h
  clean _ h := absurd h (Nat.lt_irrefl 0)
  fds fd _ := by
    constructor
    · intro h
      exact Or.inl (of_decide_eq_true h)
    · rintro (h | ⟨c, hc, -⟩)
      · exact decide_eq_true h
      · exact absurd hc (Nat.not_lt_zero _)
  apart _ _ _ h := absurd h.1 (Nat.not_lt_zero _)
  events _ _ h := absurd h.1 (Nat.not_lt_zero _)

/-- A thread that the condition has not looked at is inside no `do_close`. -/
theorem ClosesApart.apart (h : s.ClosesApart a) (threads : s.NoOtherThread)
    (numbered : s.tsTimer.Numbered) {c : Nat} (hc : c ∈ s.closeEntered a) {q : Closer}
    {p : ClosePc} (hq : s.closing q = some (c, p)) : ¬ p.Inside := by
  cases q with
  | loop l =>
    by_cases hl : l < s.tsThreadNum
    · exact h.io c hc l hl (c, p) hq rfl
    · change (s.io l).closing? = _ at hq
      rw [threads l (by omega)] at hq
      cases hq
  | node k =>
    obtain ⟨tn, hk, hclosing⟩ := Option.bind_eq_some_iff.mp hq
    exact h.timer c hc k (numbered k tn hk).1 tn hk (c, p) hclosing rfl

/-! ### Every step keeps the owners -/

/-- Threads begin a `do_close` or come back from one. -/
theorem Owners.silent (h : s.Owners n elEvfd) (fdOpen : t.fdOpen = s.fdOpen)
    (count : t.connCount = s.connCount) (conns : ∀ c, (t.conns c).fdState = (s.conns c).fdState)
    (stay : ∀ q c p, s.closing q = some (c, p) → p ≠ .ret → t.closing q = some (c, p))
    (new : ∀ q c p, t.closing q = some (c, p) → s.closing q = some (c, p) ∨ p = .enter) :
    t.Owners n elEvfd := by
  have hfd (c : Nat) : (t.conns c).tcFd = (s.conns c).tcFd := congrArg Prod.fst (conns c)
  have hclosed (c : Nat) : (t.conns c).closed = (s.conns c).closed := congrArg Prod.snd (conns c)
  have hnew {q : Closer} {c : Nat} {p : ClosePc} (hq : t.closing q = some (c, p))
      (hp : p.Inside) : s.closing q = some (c, p) := (new q c p hq).resolve_right hp.1
  have hholds (c : Nat) (fd : Int) : t.Holds c fd ↔ s.Holds c fd := by
    unfold Holds
    rw [count, hfd]
    have hplace : (∃ q, t.closing q = some (c, .closeFd fd)) ↔
        ∃ q, s.closing q = some (c, .closeFd fd) := by
      constructor
      · rintro ⟨q, hq⟩
        exact ⟨q, hnew hq ⟨nofun, nofun⟩⟩
      · rintro ⟨q, hq⟩
        exact ⟨q, stay q c _ hq nofun⟩
    rw [hplace]
  constructor
  · intro q c p hq
    rw [hfd]
    rcases new q c p hq with hold | rfl
    · exact h.place q c p hold
    · exact trivial
  · intro q q' c p p' hq hq' hp hp'
    exact h.single q q' c p p' (hnew hq hp) (hnew hq' hp') hp hp'
  · intro c hc fd
    rw [hclosed] at hc
    rw [hholds]
    exact h.clean c hc fd
  · intro fd hfd
    rw [fdOpen, h.fds fd hfd]
    simp only [hholds]
  · intro c c' fd hc hc'
    exact h.apart c c' fd ((hholds c fd).mp hc) ((hholds c' fd).mp hc')
  · intro c fd hc
    exact h.events c fd ((hholds c fd).mp hc)

/-- A connection is accepted with a descriptor that was not open. -/
theorem Owners.accept (h : s.Owners n elEvfd)
    (born : ∀ q c p, s.closing q = some (c, p) → c < s.connCount) {fd : Int} (valid : 0 ≤ fd)
    (fresh : s.fdOpen fd = false) : (s.acceptConn fd).Owners n elEvfd := by
  have hself : (s.acceptConn fd).conns s.connCount = s.newConn fd := by
    rw [acceptConn_conns, Function.update_self]
  have hother {c : Nat} (hc : c ≠ s.connCount) : (s.acceptConn fd).conns c = s.conns c := by
    rw [acceptConn_conns, Function.update_of_ne hc]
  have hborn {q : Closer} {c : Nat} {p : ClosePc} (hq : (s.acceptConn fd).closing q = some (c, p)) :
      c ≠ s.connCount := by
    have hlt := born q c p hq
    omega
  have hunowned (c : Nat) : ¬ s.Holds c fd := by
    intro hc
    rw [(h.fds fd valid).mpr (Or.inr ⟨c, hc⟩)] at fresh
    cases fresh
  have hholds (c : Nat) (fd' : Int) :
      (s.acceptConn fd).Holds c fd' ↔ c = s.connCount ∧ fd' = fd ∨ s.Holds c fd' := by
    unfold Holds
    rw [acceptConn_connCount]
    by_cases hc : c = s.connCount
    · have hnone : ¬ ∃ q, (s.acceptConn fd).closing q = some (c, .closeFd fd') :=
        fun ⟨q, hq⟩ ↦ hborn hq hc
      rw [hc] at hnone ⊢
      rw [hself]
      simp only [newConn, hnone, or_false, true_and, Nat.lt_irrefl, false_and]
      constructor
      · rintro ⟨-, -, he⟩
        exact he.symm
      · rintro rfl
        exact ⟨by omega, valid, rfl⟩
    · rw [hother hc]
      simp only [hc, false_and, false_or]
      have hlt : c < s.connCount + 1 ↔ c < s.connCount := by omega
      rw [hlt]
      rfl
  constructor
  · intro q c p hq
    rw [hother (hborn hq)]
    exact h.place q c p hq
  · exact h.single
  · intro c hc fd' hheld
    by_cases hlast : c = s.connCount
    · rw [hlast, hself] at hc
      exact absurd hc (Nat.lt_irrefl 0)
    · rw [hother hlast] at hc
      rcases (hholds c fd').mp hheld with ⟨he, -⟩ | hold
      · exact hlast he
      · exact h.clean c hc fd' hold
  · intro fd' hfd'
    rw [acceptConn_fdOpen]
    simp only [hholds]
    by_cases hfd : fd' = fd
    · rw [hfd, Function.update_self]
      exact iff_of_true rfl (Or.inr ⟨s.connCount, Or.inl ⟨rfl, rfl⟩⟩)
    · rw [Function.update_of_ne hfd, h.fds fd' hfd']
      simp only [hfd, and_false, false_or]
  · intro c c' fd' hc hc'
    rcases (hholds c fd').mp hc with ⟨rfl, rfl⟩ | hold
    · rcases (hholds c' fd').mp hc' with ⟨rfl, -⟩ | hold'
      · rfl
      · exact absurd hold' (hunowned c')
    · rcases (hholds c' fd').mp hc' with ⟨-, rfl⟩ | hold'
      · exact absurd hold (hunowned c)
      · exact h.apart c c' fd' hold hold'
  · intro c fd' hc hevent
    rcases (hholds c fd').mp hc with ⟨-, rfl⟩ | hold
    · rw [(h.fds fd' valid).mpr (Or.inl hevent)] at fresh
      cases fresh
    · exact h.events c fd' hold hevent

/-- What `c` owns while one thread alone is inside its `do_close`. -/
theorem holds_sole {q : Closer} {c : Nat} {p : ClosePc} (at_ : s.closing q = some (c, p))
    (sole : ∀ q' ≠ q, ∀ p', s.closing q' = some (c, p') → ¬ p'.Inside) (fd : Int) :
    s.Holds c fd ↔
      c < s.connCount ∧ 0 ≤ fd ∧ ((s.conns c).tcFd = fd ∨ p = .closeFd fd) := by
  unfold Holds
  have hplace : (∃ q', s.closing q' = some (c, .closeFd fd)) ↔ p = .closeFd fd := by
    constructor
    · rintro ⟨q', hq'⟩
      by_cases he : q' = q
      · rw [he, at_] at hq'
        cases hq'
        rfl
      · exact absurd ⟨nofun, nofun⟩ (sole q' he _ hq')
    · rintro rfl
      exact ⟨q, at_⟩
  rw [hplace]

/-- One thread executes a statement of `do_close` of `c`, and no other is inside it. The
descriptors in `gone` are closed. -/
theorem Owners.move (h : s.Owners n elEvfd) {q : Closer} {c : Nat} {p' : ClosePc} (gone : Set Int)
    (here : ∀ d p, s.closing q = some (d, p) → d = c) (next : t.closing q = some (c, p'))
    (others : ∀ q' ≠ q, t.closing q' = s.closing q')
    (sole : ∀ q' ≠ q, ∀ p, s.closing q' = some (c, p) → ¬ p.Inside)
    (elsewhere : ∀ d ≠ c, t.conns d = s.conns d) (count : t.connCount = s.connCount)
    (sound : p'.Sound (t.conns c).tcFd)
    (clean : 0 < (t.conns c).closed → ∀ fd, ¬ t.Holds c fd)
    (fds : ∀ fd, t.fdOpen fd = true ↔ s.fdOpen fd = true ∧ fd ∉ gone)
    (held : ∀ fd, t.Holds c fd ↔ s.Holds c fd ∧ fd ∉ gone)
    (owned : ∀ fd ∈ gone, 0 ≤ fd → s.Holds c fd) : t.Owners n elEvfd := by
  -- A thread that is inside a `do_close` afterwards is the one that moved, or has not moved.
  have hcases {q' : Closer} {d : Nat} {p : ClosePc} (hq : t.closing q' = some (d, p)) :
      (q' = q ∧ d = c ∧ p = p') ∨ (q' ≠ q ∧ s.closing q' = some (d, p)) := by
    by_cases he : q' = q
    · rw [he, next] at hq
      cases hq
      exact Or.inl ⟨he, rfl, rfl⟩
    · exact Or.inr ⟨he, others q' he ▸ hq⟩
  have hholds (d : Nat) (fd : Int) : t.Holds d fd ↔ s.Holds d fd ∧ fd ∉ gone := by
    by_cases hd : d = c
    · rw [hd]
      exact held fd
    · have hplace : (∃ q', t.closing q' = some (d, .closeFd fd)) ↔
          ∃ q', s.closing q' = some (d, .closeFd fd) := by
        constructor
        · rintro ⟨q', hq'⟩
          rcases hcases hq' with ⟨-, hc, -⟩ | ⟨-, hold⟩
          · exact absurd hc hd
          · exact ⟨q', hold⟩
        · rintro ⟨q', hq'⟩
          have hne : q' ≠ q := fun he ↦ hd (here d _ (he ▸ hq'))
          exact ⟨q', (others q' hne).trans hq'⟩
      have hsame : t.Holds d fd ↔ s.Holds d fd := by
        unfold Holds
        rw [count, elsewhere d hd, hplace]
      rw [hsame, iff_self_and]
      exact fun hc hgone ↦ hd (h.apart d c fd hc (owned fd hgone hc.2.1))
  constructor
  · intro q' d p hq
    rcases hcases hq with ⟨-, rfl, rfl⟩ | ⟨hne, hold⟩
    · exact sound
    · by_cases hd : d = c
      · rw [hd] at hold
        have houtside := sole q' hne p hold
        cases p with
        | enter | ret => exact trivial
        | _ => exact absurd ⟨nofun, nofun⟩ houtside
      · rw [elsewhere d hd]
        exact h.place q' d p hold
  · intro q₁ q₂ d p₁ p₂ h₁ h₂ inside₁ inside₂
    rcases hcases h₁ with ⟨rfl, hd, -⟩ | ⟨hne₁, hold₁⟩
    · rcases hcases h₂ with ⟨rfl, -, -⟩ | ⟨hne₂, hold₂⟩
      · rfl
      · exact absurd inside₂ (sole q₂ hne₂ p₂ (hd ▸ hold₂))
    · rcases hcases h₂ with ⟨rfl, hd, -⟩ | ⟨-, hold₂⟩
      · exact absurd inside₁ (sole q₁ hne₁ p₁ (hd ▸ hold₁))
      · exact h.single q₁ q₂ d p₁ p₂ hold₁ hold₂ inside₁ inside₂
  · intro d hd fd
    by_cases hc : d = c
    · rw [hc] at hd ⊢
      exact clean hd fd
    · rw [elsewhere d hc] at hd
      exact fun hheld ↦ h.clean d hd fd ((hholds d fd).mp hheld).1
  · intro fd hfd
    rw [fds, h.fds fd hfd]
    simp only [hholds]
    constructor
    · rintro ⟨hevent | ⟨d, hd⟩, hgone⟩
      · exact Or.inl hevent
      · exact Or.inr ⟨d, hd, hgone⟩
    · rintro (hevent | ⟨d, hd, hgone⟩)
      · exact ⟨Or.inl hevent, fun hgone ↦ h.events c fd (owned fd hgone hfd) hevent⟩
      · exact ⟨Or.inr ⟨d, hd⟩, hgone⟩
  · intro d d' fd hd hd'
    exact h.apart d d' fd ((hholds d fd).mp hd).1 ((hholds d' fd).mp hd').1
  · intro d fd hd
    exact h.events d fd ((hholds d fd).mp hd).1

/-- What a statement of `do_close` does to its connection's descriptor. -/
theorem fdState_closeStmt (c : Nat) (p : ClosePc) :
    ((s.closeStmt c p).conns c).fdState = match p with
      | .dropFd _ => (-1, (s.conns c).closed)
      | .doClean q => ((s.conns c).tcFd,
          if s.cleanNext c q = none then (s.conns c).closed + 1 else (s.conns c).closed)
      | _ => (s.conns c).fdState := by
  cases p with
  | enter | clearBufs | dropFd fd => simp [closeStmt, Conn.fdState]
  | doClean q => simp [closeStmt, cleanStmt, Conn.fdState]
  | _ => rfl

/-- A statement of `do_close` leaves the other connections. -/
theorem conns_closeStmt_of_ne {c d : Nat} (p : ClosePc) (hd : d ≠ c) :
    (s.closeStmt c p).conns d = s.conns d := by
  cases p with
  | enter | clearBufs | dropFd fd | doClean q =>
    simp only [closeStmt, cleanStmt, modConn_conns, Function.update_of_ne hd]
  | _ => rfl

/-- A statement of `do_close`, with no other thread inside it. -/
theorem Owners.close (h : s.Owners n elEvfd) {q : Closer} {c : Nat} {p : ClosePc}
    (at_ : s.closing q = some (c, p)) (known : c < s.connCount) (body : p ≠ .ret)
    (first : p = .enter → ∀ q' p', s.closing q' = some (c, p') → ¬ p'.Inside)
    (next : t.closing q = some (c, s.closeNext c p))
    (others : ∀ q' ≠ q, t.closing q' = s.closing q')
    (fdOpen : t.fdOpen = (s.closeStmt c p).fdOpen) (count : t.connCount = s.connCount)
    (conns : t.conns = (s.closeStmt c p).conns) : t.Owners n elEvfd := by
  have hsole : ∀ q' ≠ q, ∀ p', s.closing q' = some (c, p') → ¬ p'.Inside := by
    intro q' hne p' hq' hp'
    by_cases hp : p = .enter
    · exact first hp q' p' hq' hp'
    · exact hne (h.single q' q c p' p hq' at_ hp' ⟨hp, body⟩)
  have hsole' : ∀ q' ≠ q, ∀ p', t.closing q' = some (c, p') → ¬ p'.Inside :=
    fun q' hne p' hq' ↦ hsole q' hne p' (others q' hne ▸ hq')
  have hhere (d : Nat) (p' : ClosePc) (hd : s.closing q = some (d, p')) : d = c := by
    rw [at_] at hd
    cases hd
    rfl
  have helsewhere : ∀ d ≠ c, t.conns d = s.conns d := fun d hd ↦ by
    rw [conns, conns_closeStmt_of_ne p hd]
  have hstate := fdState_closeStmt (s := s) c p
  rw [← conns] at hstate
  have hplace := h.place q c p at_
  have hheld := holds_sole at_ hsole
  have hheld' (fd : Int) : t.Holds c fd ↔ c < s.connCount ∧ 0 ≤ fd ∧
      ((t.conns c).tcFd = fd ∨ s.closeNext c p = .closeFd fd) := by
    rw [holds_sole next hsole', count]
  -- A connection that is past `do_clean` gets nothing back.
  have hclean (hclosed : (t.conns c).closed = (s.conns c).closed)
      (hless : ∀ fd, t.Holds c fd → s.Holds c fd) (hpast : 0 < (t.conns c).closed) (fd : Int) :
      ¬ t.Holds c fd := fun hfd ↦ h.clean c (hclosed ▸ hpast) fd (hless fd hfd)
  cases p with
  | ret => exact absurd rfl body
  | enter | loadFd | delMap fd | delCtl l fd | clearBufs | takeFd =>
    obtain ⟨hfd, hclosed⟩ := Prod.mk.inj hstate
    have hsame (fd : Int) : t.Holds c fd ↔ s.Holds c fd := by
      simp [hheld, hheld', hfd, closeNext]
    refine h.move ∅ hhere next others hsole helsewhere count ?_
      (hclean hclosed fun fd ↦ (hsame fd).mp) ?_ ?_ (fun _ h ↦ h.elim)
    · simp [closeNext, ClosePc.Sound, hfd]
    · simp [fdOpen, closeStmt]
    · simp [hsame]
  | dropFd fd =>
    obtain ⟨hfd, hclosed⟩ := Prod.mk.inj hstate
    have hsame (fd' : Int) : t.Holds c fd' ↔ s.Holds c fd' := by
      rw [hheld, hheld', hfd, hplace]
      simp only [closeNext, ClosePc.closeFd.injEq, reduceCtorEq, or_false]
      refine and_congr_right fun _ ↦ and_congr_right fun hnonneg ↦ ?_
      omega
    refine h.move ∅ hhere next others hsole helsewhere count hfd
      (hclean hclosed fun fd ↦ (hsame fd).mp) ?_ ?_ (fun _ h ↦ h.elim)
    · simp [fdOpen, closeStmt]
    · simp [hsame]
  | closeFd fd =>
    obtain ⟨hfd, hclosed⟩ := Prod.mk.inj hstate
    have hnone (fd' : Int) : ¬ t.Holds c fd' := by
      rw [hheld', hfd, hplace]
      simp only [closeNext, reduceCtorEq, or_false]
      omega
    have hone (fd' : Int) : s.Holds c fd' ↔ c < s.connCount ∧ 0 ≤ fd' ∧ fd = fd' := by
      rw [hheld, hplace, ClosePc.closeFd.injEq]
      refine and_congr_right fun _ ↦ and_congr_right fun hnonneg ↦ ?_
      omega
    refine h.move {fd} hhere next others hsole helsewhere count (hfd.trans hplace)
      (hclean hclosed fun fd' hc ↦ absurd hc (hnone fd')) ?_ ?_ ?_
    · intro fd'
      rw [fdOpen, closeStmt, closeFd_fdOpen, Set.mem_singleton_iff]
      by_cases he : fd' = fd
      · simp [he]
      · simp [he]
    · intro fd'
      simp only [hnone, hone, Set.mem_singleton_iff, false_iff]
      omega
    · rintro fd' rfl hvalid
      exact (hone fd').mpr ⟨known, hvalid, rfl⟩
  | doClean p' =>
    obtain ⟨hfd, -⟩ := Prod.mk.inj hstate
    have hnone (fd : Int) : ¬ t.Holds c fd := by
      rw [hheld', hfd, hplace]
      rcases s.closeNext_doClean c p' with hend | ⟨p'', hon⟩
      · simp only [hend, reduceCtorEq, or_false]
        omega
      · simp only [hon, reduceCtorEq, or_false]
        omega
    have hnone' (fd : Int) : ¬ s.Holds c fd := by
      rw [hheld, hplace]
      simp only [reduceCtorEq, or_false]
      omega
    refine h.move ∅ hhere next others hsole helsewhere count ?_ (fun _ ↦ hnone) ?_ ?_
      (fun _ h ↦ h.elim)
    · rcases s.closeNext_doClean c p' with hend | ⟨p'', hon⟩
      · rw [hend]
        exact trivial
      · rw [hon]
        exact hfd.trans hplace
    · simp [fdOpen, closeStmt, cleanStmt]
    · simp [hnone, hnone']

/-- A connection that is being closed has been accepted. -/
theorem Known.closing (h : s.Known) {q : Closer} {c : Nat} {p : ClosePc}
    (hq : s.closing q = some (c, p)) : c < s.connCount := by
  cases q with
  | loop l =>
    change (s.io l).closing? = some (c, p) at hq
    cases hio : s.io l with
    | closing c' p' batch =>
      rw [hio] at hq
      cases hq
      exact (h.own l c (by rw [hio]; rfl)).1
    | userClosing c' d p' batch =>
      rw [hio] at hq
      cases hq
      exact h.other l c (by rw [hio]; rfl)
    | _ => rw [hio] at hq; cases hq
  | node k =>
    obtain ⟨tn, hk, hclosing⟩ := Option.bind_eq_some_iff.mp hq
    unfold TimerNode.closing? at hclosing
    split at hclosing
    · cases hclosing
      exact h.node k tn hk
    · cases hclosing

/-- Every step under the condition keeps the owners. -/
theorem Owners.step (h : s.Owners n elEvfd) (threads : s.NoOtherThread) (known : s.Known)
    (numbered : s.tsTimer.Numbered) (hok : s.ClosesApart a) (hstep : s.step a = some t) :
    t.Owners n elEvfd := by
  cases effect_of_step numbered hstep with
  | silent fdOpen count conns list stay new => exact h.silent fdOpen count conns stay new
  | accept fd valid fresh eq =>
    rw [eq]
    exact h.accept (fun _ _ _ hq ↦ known.closing hq) valid fresh
  | close q c p by_ at_ body next others fdOpen count conns list =>
    refine h.close at_ (known.closing at_) body (fun hp q' p' hq' ↦ ?_) next others fdOpen count
      conns
    refine hok.apart threads numbered ?_ hq'
    rw [Option.mem_def, closeEntered, by_, closeStatement_action, at_, hp]

/-- In every run in which no thread enters the `do_close` of a connection while another is inside
it: every open descriptor is the eventfd of a loop or owned by exactly one connection, a connection
that has been past `do_clean` owns none, and `close` of a valid descriptor is called by its owner,
while it is open. -/
theorem descriptors_owned (h : ReachBy Server.step ClosesApart (init n elEvfd) s) :
    (∀ fd, 0 ≤ fd → (s.fdOpen fd = true ↔ (∃ l < n, elEvfd l = fd) ∨ ∃ c, s.Holds c fd)) ∧
      (∀ c c' fd, s.Holds c fd → s.Holds c' fd → c = c') ∧
      (∀ c fd, s.Holds c fd → ¬ ∃ l < n, elEvfd l = fd) ∧
      (∀ c, 0 < (s.conns c).closed → ∀ fd, ¬ s.Holds c fd) ∧
      ∀ a c fd, s.closeStatement a = some (c, .closeFd fd) → 0 ≤ fd →
        s.Holds c fd ∧ s.fdOpen fd = true := by
  have hinv : (s.NoOtherThread ∧ s.Known ∧ s.tsTimer.Numbered) ∧ s.Owners n elEvfd :=
    h.invariant
      (P := fun s ↦ (s.NoOtherThread ∧ s.Known ∧ s.tsTimer.Numbered) ∧ s.Owners n elEvfd)
      ⟨⟨noOtherThread_init n elEvfd, known_init n elEvfd, TimerState.numbered_init⟩,
        owners_init n elEvfd⟩
      fun s a t hs hok hstep ↦ ⟨⟨hs.1.1.step (step_inversion hstep),
        hs.1.2.1.step (step_inversion hstep), (step_inversion hstep).numbered hs.1.2.2⟩,
        hs.2.step hs.1.1 hs.1.2.1 hs.1.2.2 hok hstep⟩
  obtain ⟨⟨-, hknown, -⟩, howners⟩ := hinv
  refine ⟨howners.fds, howners.apart, howners.events, howners.clean, fun a c fd ha hfd ↦ ?_⟩
  obtain ⟨q, -, hq⟩ := closing_of_closeStatement ha
  have hheld : s.Holds c fd := ⟨hknown.closing hq, hfd, Or.inr ⟨q, hq⟩⟩
  exact ⟨hheld, (howners.fds fd hfd).mpr (Or.inr ⟨c, hheld⟩)⟩


/-- The peer ends the stream, the next connection gets the same descriptor, and then the timer of
the first expires. -/
def descriptorGivenAgain : List ServerAction :=
  .accept 7 :: List.replicate 5 (.acceptor true) ++
    [.wait 0 [(7, EPOLLIN)], .lookup 0, .readFails 0] ++ List.replicate 12 (.close 0) ++
      .accept 7 :: List.replicate 5 (.acceptor true) ++
        [.expire 0, .check 0, .post 0, .begin 0] ++ List.replicate 12 (.timerClose 0)

/-- The late timeout closes the first connection again and leaves the second its descriptor. -/
theorem descriptor_given_again_owned :
    ∃ s, run Server.step (init 1 fun _ ↦ 3) descriptorGivenAgain = some s ∧
      (conns s 0).closes = 2 ∧ fdOpen s 7 = true ∧ Holds s 1 7 ∧ ∀ fd, ¬ Holds s 0 fd := by
  have hrun : (run Server.step (init 1 fun _ ↦ 3) descriptorGivenAgain).isSome := by
    decide +kernel
  have hend : ∀ t ∈ run Server.step (init 1 fun _ ↦ 3) descriptorGivenAgain,
      (conns t 0).closes = 2 ∧ 0 < (conns t 0).closed ∧ 1 < connCount t ∧
        (conns t 1).tcFd = 7 := by decide +kernel
  obtain ⟨s, hs⟩ := Option.isSome_iff_exists.mp hrun
  obtain ⟨hcloses, hclosed, hcount, hfd⟩ := hend s hs
  obtain ⟨hopen, -, -, hclean, -⟩ := descriptors_owned (reachBy_of_run hs (by decide +kernel))
  have hheld : Holds s 1 7 := ⟨hcount, by decide, Or.inl hfd⟩
  exact ⟨s, hs, hcloses, (hopen 7 (by decide)).mpr (Or.inr ⟨1, hheld⟩), hheld, hclean 0 hclosed⟩

end Server

end ConcurrentServer.Net
