import ConcurrentServer.Base.Alone
import ConcurrentServer.Memory.OutputStream

/-!
# Writing into an output buffer

`src/memory/data_buf.cpp:104–131`, `src/memory/mem_pool.cpp:38–78`. `write2buf` asks the pool for
the sum of two `int`s, and a sum that wraps around is negative and asks for the smallest class.
Where the sum is an `int` the call fails and changes nothing, or appends.
-/

namespace ConcurrentServer.Memory
open ConcurrentServer.Base

/-- While a chunk is held, its length and that of the data are together an `int`. -/
def World.SumFits (w : World) (i : BufferId) (values : List UInt8) : Prop :=
  ∀ a ∈ w.dataBuf i, (w.pool.chunks a).length + values.length ≤ intMax

instance (w : World) (i : BufferId) (values : List UInt8) : Decidable (w.SumFits i values) :=
  inferInstanceAs (Decidable (∀ a ∈ w.dataBuf i,
    (w.pool.chunks a).length + (values.length : Int) ≤ intMax))

/-- The bytes that a call passes with the `write` it is at. -/
def writeRequest : Thread Effect Effect.Result Call Call.Ret → Option (List UInt8)
  | .running _ (.op (.write _ values) _) => some values
  | _ => none

/-- The use of output buffer `n`: sums that fit, no `write` that accepts more than it was given,
and no negative `pop` that makes the length exceed the capacity. -/
def WriteUse (n : Nat) (s : BufferState) : BufferAction → Prop
  | .start i (.write2buf values) | .start i (.send _ values) =>
    i = .output n → s.mem.SumFits i values
  | .start i (.pop len) => i = .output n → ∀ a ∈ s.mem.dataBuf i,
      (s.mem.pool.chunks a).length - len ≤ (s.mem.pool.chunks a).capacity
  | .perform i (.write (.count k)) => i = .output n →
    ∀ values ∈ writeRequest (s.thread i), k ≤ values.length
  | _ => True

instance (n : Nat) (s : BufferState) : DecidablePred (WriteUse n s)
  | .start i c =>
    match c with
    | .write2buf values | .send _ values =>
      (inferInstance : Decidable (i = .output n → s.mem.SumFits i values))
    | .pop len =>
      (inferInstance : Decidable (i = .output n → ∀ a ∈ s.mem.dataBuf i,
        (s.mem.pool.chunks a).length - len ≤ (s.mem.pool.chunks a).capacity))
    | .readFromFd _ | .adjust | .write2fd _ | .clear | .addTask _ | .doWrite _ => isTrue trivial
  | .perform i inp =>
    match inp with
    | .write (.count k) =>
      (inferInstance : Decidable (i = .output n →
        ∀ values ∈ writeRequest (s.thread i), k ≤ values.length))
    | .write .eintr | .write .eagain | .write .error | .none | .alloc _ _ | .fionread _
    | .read _ => isTrue trivial
  | .loop _ | .finish _ => isTrue trivial

/-- A call of `write2buf` that runs alone; `newOk` and `block` are the memory for a new chunk. -/
def World.write2buf (w : World) (n : Nat) (values : List UInt8) (newOk : Bool)
    (block : Int → UInt8) : Option (Outcome Halt Int World) :=
  (BufProg.write2buf values).alone (World.exec (.output n)) (fun _ ↦ .alloc newOk block) w

/-- The bytes, the chunk and the free lists are as they were. -/
structure Kept (i : BufferId) (w w' : World) : Prop where
  bytes : w'.bytes i = w.bytes i
  held : w'.dataBuf i = w.dataBuf i
  chunk : ∀ a ∈ w.dataBuf i, w'.pool.chunks a = w.pool.chunks a
  freeList : ∀ index position, nthNode w'.pool.next (w'.pool.head index) position =
    nthNode w.pool.next (w.pool.head index) position

/-- `r` is −1 and nothing has changed, or 0 and the data is appended and inside the chunk. -/
def WroteRight (i : BufferId) (values : List UInt8) (w w' : World) (r : Int) : Prop :=
  (r = -1 ∧ Kept i w w') ∨ (r = 0 ∧ w'.bytes i = w.bytes i ++ values ∧
    ∀ a ∈ w'.dataBuf i, (w'.pool.chunks a).length ≤ (w'.pool.chunks a).capacity)

/-! ### Calls -/

variable {b : Option (Nat × Chunk)} {tr : Trace}

/-- The sum, of what the buffer owns. -/
theorem World.SumFits.sum_le {w : World} {i : BufferId} {values : List UInt8}
    (h : w.SumFits i values) (hb : b = (w.dataBuf i).map fun a ↦ (a, w.pool.chunks a))
    (held : b ≠ none) : values.length + View.lengthOf b ≤ intMax := by
  cases hdata : w.dataBuf i with
  | none =>
    rw [hdata] at hb
    exact absurd hb held
  | some a =>
    rw [hb, hdata, Int.add_comm]
    exact h a hdata

/-- What `write` has accepted leaves the chunk. -/
theorem Chunk.Within.afterWrite {c : Chunk} (h : c.Within) (hhead : c.head = 0) {k : Nat}
    (le : k ≤ c.bytes.length) : (c.afterWrite k).Within :=
  ((h.tidy hhead).afterWrite le).1.within

/-- An output buffer that is inside its chunk stays so in every call. -/
theorem wp_written {n : Nat} {c : Call} {legal : Effect → Input → View → Prop}
    {mayHalt : Halt → Prop} (halts : ∀ h, mayHalt h)
    (bounded : ∀ e inp l, legal e inp l → WriteBounded e inp)
    (within : ∀ p ∈ b, p.2.Within) (hoffers : (BufferId.output n).offers c = true)
    (sums : ∀ values, (c = .write2buf values ∨ ∃ fd, c = .send fd values) → b ≠ none →
      values.length + View.lengthOf b ≤ intMax)
    (popped : ∀ len, c = .pop len → ∀ p ∈ b, p.2.length - len ≤ p.2.capacity) :
    wp (View.spec legal) mayHalt c.body
      (fun _ l ↦ ∃ b tr, l = .idle b tr ∧ ∀ p ∈ b, p.2.Within) (.idle b tr) := by
  have accepted {fd : Int} {a k : Nat} {c : Chunk} {tr : Trace} (hc : c.Within)
      (hhead : c.head = 0)
      (hlegal : legal (.write fd c.bytes) (.write (.count k)) (.idle (some (a, c)) tr)) :
      (c.afterWrite k).Within :=
    hc.afterWrite hhead (bounded _ _ _ hlegal)
  cases c with
  | write2buf values =>
    refine wp_write2buf (halts _) (Or.inl (halts _)) (fun _ ↦ ⟨b, tr, rfl, within⟩)
      fun a c hres ↦ ?_
    exact ⟨_, tr, rfl, (hres.append within (sums values (Or.inl rfl))).1.some⟩
  | write2fd fd =>
    refine wp_write2fd (Or.inl (halts _)) (fun _ ↦ ⟨b, tr, rfl, within⟩) ?_
    rintro a c k rfl hhead hlegal
    exact ⟨_, _, rfl, (accepted (within _ rfl) hhead hlegal).some⟩
  | pop len =>
    refine wp_pop (halts _) (fun a c hb hle _ ↦ ?_) fun _ _ _ _ _ ↦ ⟨none, tr, rfl, nofun⟩
    exact ⟨_, tr, rfl, ((within _ hb).pop hle (popped len rfl _ hb)).some⟩
  | clear => exact wp_clear ⟨none, tr, rfl, nofun⟩
  | addTask fd => exact wp_addTask ⟨b, _, rfl, within⟩
  | send fd values =>
    refine wp_send (halts _) (Or.inl (halts _)) (fun _ ↦ ⟨b, tr, rfl, within⟩) fun a c hres ↦ ?_
    exact ⟨_, _, rfl, (hres.append within (sums values (Or.inr ⟨fd, rfl⟩))).1.some⟩
  | doWrite fd =>
    refine wp_doWrite (fun b _ ↦ ∀ p ∈ b, p.2.Within) within (Or.inl (halts _)) ?_
      (fun b tr hb ↦ ⟨b, _, rfl, hb⟩) fun tr ↦ ⟨none, tr, rfl, nofun⟩
    rintro a c tr k hc hhead - hlegal
    exact (accepted (hc _ rfl) hhead hlegal).some
  | _ => cases hoffers

/-- The proof for output buffer `n`; of the others nothing is asked. -/
def writeLogic (n : Nat) : ObjectLogic buffers (WriteUse n) View :=
  bufferLogic (fun i e inp _ ↦ i = .output n → WriteBounded e inp) (fun _ _ ↦ True)
    (fun i _ b _ ↦ i = .output n → ∀ p ∈ b, p.2.Within)
    (by
      rintro s ls i c e k inp - hth hadmits rfl
      refine writeBounded_of_count fun fd values count he hinp ↦ ?_
      subst he hinp
      exact hadmits rfl values (by rw [hth]; rfl))
    (by
      intro s ls i c b tr hsplit hl hwithin hoffers hadmits
      by_cases hi : i = .output n
      · subst hi
        have hb := hsplit.eq_held hl
        refine wp_mono (wp_written (fun _ ↦ trivial) (fun e inp l h ↦ h rfl) (hwithin rfl)
          hoffers ?_ ?_) fun r l ⟨b, tr, hl, hholds⟩ ↦ ⟨b, tr, hl, fun _ ↦ hholds⟩
        · rintro values hc hne
          have hsum : s.mem.SumFits (.output n) values := by
            rcases hc with rfl | ⟨fd, rfl⟩
            · exact hadmits rfl
            · exact hadmits rfl
          exact hsum.sum_le hb hne
        · rintro len rfl p hp
          rw [hb] at hp
          obtain ⟨a, ha, rfl⟩ := Option.mem_map.mp hp
          exact hadmits rfl a ha
      · refine wp_mono (wp_body (fun _ ↦ trivial) c b tr) ?_
        rintro r l ⟨b, tr, hl⟩
        exact ⟨b, tr, hl, fun h ↦ absurd h hi⟩)

/-! ### A call that runs alone -/

variable {i : BufferId} {n : Nat} {values : List UInt8} {newOk : Bool} {block : Int → UInt8}
  {w w' : World}

/-- The lone call is made of steps of its buffer. -/
theorem reach_of_write2buf {s : BufferState} {r : Int} (idle : s.thread (.output n) = .idle)
    (running : s.halted = none)
    (hcall : s.mem.write2buf n values newOk block = some (.value r w')) :
    ReachBy buffers.step (fun _ b ↦ b.object = .output n) s { s with
      mem := w'
      log := Function.update s.log (.output n)
        (s.log (.output n) ++ [⟨.write2buf values, r⟩]) } := by
  have hbody : (buffers.body (.output n) (.write2buf values)).alone (buffers.exec (.output n))
      (fun _ ↦ .alloc newOk block) s.mem = some (.value r w') := hcall
  exact ObjectSystem.reach_of_call_alone idle running rfl hbody

/-- The pool refuses what is above every class, and nothing changes. -/
theorem failed_of_allocChunk {n : Int} {pool : Mempool}
    (h : w.pool.allocChunk n newOk block = .ok (none, pool)) :
    Mempool.findClass n = none ∧ pool = w.pool := by
  unfold Mempool.allocChunk at h
  split at h
  · next hclass => cases h; exact ⟨hclass, rfl⟩
  · split at h
    · split at h
      · cases h
      · split at h
        · cases h
        · cases h
    · cases h

/-- The call of the pool in a call that runs alone. -/
theorem world_of_allocChunk {n : Int} {p : Option Nat}
    (h : (BufProg.allocChunk n).alone (World.exec i) (fun _ ↦ .alloc newOk block) w =
      some (.value p w')) : p.isSome ∨ (w' = w ∧ p = none ∧ Mempool.findClass n = none) := by
  have h := (Prog.alone_perform (Effect.allocChunk n)).symm.trans h
  simp only [World.exec] at h
  cases halloc : w.pool.allocChunk n newOk block with
  | error hr => rw [halloc] at h; cases h
  | ok res =>
    obtain ⟨q, pool⟩ := res
    rw [halloc] at h
    obtain ⟨rfl, rfl⟩ := Outcome.value.inj (Option.some.inj h)
    cases q with
    | some a => exact Or.inl rfl
    | none =>
      obtain ⟨hclass, rfl⟩ := failed_of_allocChunk halloc
      exact Or.inr ⟨rfl, rfl, hclass⟩

/-- Where no room is reserved, the world is as it was. -/
theorem failed_of_reserve {need : Int}
    (h : (BufProg.reserve need).alone (World.exec i) (fun _ ↦ .alloc newOk block) w =
      some (.value false w')) :
    w' = w ∧ ∀ a ∈ w.dataBuf i,
      Mempool.findClass (int32 (need + (w.pool.chunks a).length)) = none := by
  obtain ⟨p, w₁, h₁, h⟩ := Prog.alone_bind_eq_value.mp h
  obtain ⟨rfl, rfl⟩ := Outcome.value.inj (Option.some.inj h₁)
  cases hdata : w.dataBuf i with
  | none =>
    rw [hdata] at h
    obtain ⟨p, w₂, h₂, h⟩ := Prog.alone_bind_eq_value.mp h
    obtain ⟨_, w₃, h₃, h⟩ := Prog.alone_bind_eq_value.mp h
    obtain ⟨-, rfl⟩ := Outcome.value.inj (Option.some.inj h₃)
    obtain ⟨hsome, rfl⟩ := Outcome.value.inj (Option.some.inj h)
    rcases world_of_allocChunk h₂ with hp | ⟨rfl, rfl, -⟩
    · rw [hp] at hsome
      cases hsome
    · refine ⟨?_, nofun⟩
      rw [← hdata, Function.update_eq_self]
  | some a =>
    rw [hdata] at h
    obtain ⟨c, w₂, h₂, h⟩ := Prog.alone_bind_eq_value.mp h
    obtain ⟨rfl, rfl⟩ := Outcome.value.inj (Option.some.inj h₂)
    obtain ⟨_, w₃, h₃, h⟩ := Prog.alone_bind_eq_value.mp h
    have hassert : w₃ = w := by
      have h₃ := (Prog.alone_perform (Effect.assert _)).symm.trans h₃
      simp only [World.exec] at h₃
      split at h₃
      · exact (Outcome.value.inj (Option.some.inj h₃)).2.symm
      · cases h₃
    subst hassert
    by_cases hroom : int32 ((w₃.pool.chunks a).capacity - (w₃.pool.chunks a).length) < need
    · rw [if_pos hroom] at h
      obtain ⟨p, w₄, h₄, h⟩ := Prog.alone_bind_eq_value.mp h
      rcases world_of_allocChunk h₄ with hp | ⟨rfl, rfl, hclass⟩
      · obtain ⟨a', rfl⟩ := Option.isSome_iff_exists.mp hp
        obtain ⟨_, w₅, h₅, h⟩ := Prog.alone_bind_eq_value.mp h
        obtain ⟨_, w₆, h₆, h⟩ := Prog.alone_bind_eq_value.mp h
        obtain ⟨_, w₇, h₇, h⟩ := Prog.alone_bind_eq_value.mp h
        obtain ⟨_, w₈, h₈, h⟩ := Prog.alone_bind_eq_value.mp h
        cases (Outcome.value.inj (Option.some.inj h)).1
      · obtain ⟨-, rfl⟩ := Outcome.value.inj (Option.some.inj h)
        refine ⟨rfl, ?_⟩
        rintro _ ⟨⟩
        exact hclass
    · rw [if_neg hroom] at h
      cases (Outcome.value.inj (Option.some.inj h)).1

/-- A call that returns −1 has changed nothing, and the pool has refused. -/
theorem failed_of_write2buf (h : w.write2buf n values newOk block = some (.value (-1) w')) :
    w' = w ∧ ∀ a ∈ w.dataBuf (.output n),
      Mempool.findClass (int32 (values.length + (w.pool.chunks a).length)) = none := by
  obtain ⟨reserved, w₁, h₁, h⟩ := Prog.alone_bind_eq_value.mp h
  cases reserved with
  | false =>
    obtain ⟨-, rfl⟩ := Outcome.value.inj (Option.some.inj h)
    exact failed_of_reserve h₁
  | true =>
    obtain ⟨a, w₂, h₂, h⟩ := Prog.alone_bind_eq_value.mp h
    obtain ⟨_, w₃, h₃, h⟩ := Prog.alone_bind_eq_value.mp h
    obtain ⟨_, w₄, h₄, h⟩ := Prog.alone_bind_eq_value.mp h
    cases (Outcome.value.inj (Option.some.inj h)).1

/-- The calls of the pool have an answer. -/
theorem answered_allocChunk (need : Int) : (BufProg.allocChunk need).Answered (World.exec i)
    fun _ ↦ .alloc newOk block := by
  refine .perform fun w ↦ ?_
  simp only [World.exec]
  split <;> rfl

theorem answered_retrieve (a : Nat) : (BufProg.retrieve a).Answered (World.exec i)
    fun _ ↦ .alloc newOk block := by
  refine .perform fun w ↦ ?_
  simp only [World.exec]
  split <;> rfl

theorem answered_reserve (need : Int) : (BufProg.reserve need).Answered (World.exec i)
    fun _ ↦ .alloc newOk block := by
  refine .bind (.perform fun _ ↦ rfl) fun buf ↦ ?_
  cases buf with
  | none =>
    exact .bind (answered_allocChunk _) fun _ ↦ .bind (.perform fun _ ↦ rfl) fun _ ↦ trivial
  | some a =>
    refine .bind (.perform fun _ ↦ rfl) fun c ↦ .bind (.perform fun _ ↦ rfl) fun _ ↦ ?_
    split
    · refine .bind (answered_allocChunk _) fun newBuf ↦ ?_
      cases newBuf with
      | none => trivial
      | some a' =>
        exact .bind (.perform fun _ ↦ rfl) fun _ ↦ .bind (.perform fun _ ↦ rfl) fun _ ↦
          .bind (answered_retrieve _) fun _ ↦ .bind (.perform fun _ ↦ rfl) fun _ ↦ trivial
    · trivial

/-- The call returns or ends the process. -/
theorem write2buf_isSome : (w.write2buf n values newOk block).isSome := by
  refine Prog.Answered.isSome (.bind (answered_reserve _) fun reserved ↦ ?_) w
  cases reserved with
  | false => trivial
  | true =>
    have pointed : BufProg.chunkPtr.Answered (World.exec (.output n))
        fun _ ↦ .alloc newOk block := by
      refine .bind (.perform fun _ ↦ rfl) fun buf ↦ ?_
      cases buf with
      | none => exact .bind (.perform fun _ ↦ rfl) fun _ ↦ trivial
      | some a => trivial
    exact .bind pointed fun _ ↦ .bind (.perform fun _ ↦ rfl) fun _ ↦
      .bind (.perform fun _ ↦ rfl) fun _ ↦ trivial

/-- What a weakest precondition says of a call that runs alone. -/
theorem Split.alone {ls : BufferId → View} {α : Type} {p : BufProg α} {env : Effect → Input}
    {mayHalt : Halt → Prop} {Q : α → View → Prop} (h : Split ls w)
    (hwp : wp (View.spec fun _ _ _ ↦ True) mayHalt p Q (ls i)) :
    (∀ a w', p.alone (World.exec i) env w = some (.value a w') →
      ∃ l', Q a l' ∧ Split (Function.update ls i l') w') ∧
    ∀ hr, p.alone (World.exec i) env w = some (.halt hr) → mayHalt hr := by
  refine wp_alone (fun _ _ ↦ trivial) ?_ ?_ hwp (by rwa [Function.update_eq_self])
  · intro l w e r w' hsplit hok hexec
    have hown : Function.update ls i l i = l := Function.update_self ..
    obtain ⟨l', hact, hsplit'⟩ := hsplit.value (by rwa [hown]) hexec
    rw [hown] at hact
    rw [Function.update_idem] at hsplit'
    exact ⟨l', hact, hsplit'⟩
  · intro l w e hr hsplit hok hexec
    have hown : Function.update ls i l i = l := Function.update_self ..
    have hact := hsplit.halt (by rwa [hown]) hexec
    rwa [hown] at hact

/-- What a lone call of `write2buf` of a buffer with chunk `b` comes to. -/
theorem Split.write2buf {ls : BufferId → View} (h : Split ls w)
    (hl : ls (.output n) = .idle b tr) (newOk : Bool) (block : Int → UInt8) :
    (∀ r w', w.write2buf n values newOk block = some (.value r w') → r = -1 ∨ (r = 0 ∧
      ∃ a c, Reserved values.length b c ∧ Split (Function.update ls (.output n)
        (.idle (some (a, (c.storeBehind values).grow values.length)) tr)) w')) ∧
    ∀ hr, w.write2buf n values newOk block = some (.halt hr) →
      hr = .exit ∨ (hr = .assertion ∧ ∃ p ∈ b, p.2.head ≠ 0) := by
  have asserts : (∃ p ∈ b, p.2.head ≠ 0) ∨ ∀ a c, b = some (a, c) → c.head = 0 := by
    by_cases hhead : ∃ p ∈ b, p.2.head ≠ 0
    · exact Or.inl hhead
    · exact Or.inr fun a c hb ↦ not_not.mp fun hne ↦ hhead ⟨(a, c), hb, hne⟩
  have hwp : wp (View.spec fun _ _ _ ↦ True)
      (fun hr ↦ hr = .exit ∨ (hr = .assertion ∧ ∃ p ∈ b, p.2.head ≠ 0))
      (BufProg.write2buf values)
      (fun r l ↦ r = -1 ∨ (r = 0 ∧ ∃ a c, Reserved values.length b c ∧
        l = .idle (some (a, (c.storeBehind values).grow values.length)) tr)) (.idle b tr) :=
    wp_write2buf (Or.inl rfl) (asserts.imp (fun h ↦ Or.inr ⟨rfl, h⟩) id) (fun _ ↦ Or.inl rfl)
      fun a c hres ↦ Or.inr ⟨rfl, a, c, hres, rfl⟩
  rw [← hl] at hwp
  obtain ⟨hvalue, hhalt⟩ := h.alone hwp
  refine ⟨fun r w' hcall ↦ ?_, hhalt⟩
  obtain ⟨l', hr, hsplit'⟩ := hvalue r w' hcall
  rcases hr with hr | ⟨hr, a, c, hres, rfl⟩
  · exact Or.inl hr
  · exact Or.inr ⟨hr, a, c, hres, hsplit'⟩

/-- A negative size asks for the smallest class. -/
theorem findClass_of_neg {need : Int} (h : need < 0) : Mempool.findClass need = some 4096 := by
  rw [Mempool.findClass, memCaps, List.find?_cons_of_pos]
  simp only [decide_eq_true_eq]
  omega

/-- A sum that wraps around leaves a negative length, and so no bytes. -/
theorem bytes_of_sum_wraps {c : Chunk} (hc : c.length ≤ 4194304) (inRange : values.length ≤ intMax)
    (wraps : intMax < c.length + values.length) :
    ((c.storeBehind values).grow values.length).bytes = [] := by
  have hmax : intMax = 2 ^ 31 - 1 := rfl
  have hneg : int32 (c.length + values.length) < 0 := int32_neg_of_gt wraps (by omega)
  apply List.eq_nil_of_length_eq_zero
  rw [Chunk.bytes, length_window]
  change (int32 (c.length + values.length)).toNat = 0
  omega

/-- A lone call does right exactly when the sum is an `int`. -/
theorem wroteRight_iff {ls : BufferId → View} {r : Int} (hsplit : Split ls w)
    (hl : ls (.output n) = .idle b tr) (within : ∀ p ∈ b, p.2.Within)
    (inRange : values.length ≤ intMax)
    (hcall : w.write2buf n values newOk block = some (.value r w')) :
    WroteRight (.output n) values w w' r ↔ w.SumFits (.output n) values := by
  have hb := hsplit.eq_held hl
  have held {a : Nat} (ha : a ∈ w.dataBuf (.output n)) : b = some (a, w.pool.chunks a) := by
    rw [hb, ha]
    rfl
  rcases (hsplit.write2buf hl newOk block).1 r w' hcall with rfl | ⟨rfl, a, c, hres, hsplit'⟩
  · -- The pool has refused, which it does not do with a negative size.
    obtain ⟨rfl, hrefused⟩ := failed_of_write2buf hcall
    constructor
    · intro _ a ha
      by_contra hwraps
      have hlength := (within _ (held ha)).fits
      have hcapacity := (within _ (held ha)).capacity
      have hmax : intMax = 2 ^ 31 - 1 := rfl
      dsimp only at hlength hcapacity
      have hneg : int32 (values.length + (w'.pool.chunks a).length) < 0 :=
        int32_neg_of_gt (by omega) (by omega)
      have := hrefused a ha
      rw [findClass_of_neg hneg] at this
      cases this
    · intro _
      exact Or.inl ⟨rfl, rfl, rfl, fun _ _ ↦ rfl, fun _ _ ↦ rfl⟩
  · have hbytes : w'.bytes (.output n) = ((c.storeBehind values).grow values.length).bytes :=
      hsplit'.bytes_eq (Function.update_self ..)
    have hheld := hsplit'.eq_held (Function.update_self ..)
    have hold := hsplit.bytes_eq hl
    constructor
    · rintro (⟨hr, -⟩ | ⟨-, hright, -⟩) a₀ ha₀
      · cases hr
      · by_contra hwraps
        have hc := within _ (held ha₀)
        obtain ⟨-, hfits, hcapacity⟩ := hc
        dsimp only at hfits hcapacity
        have hlength : c.length = (w.pool.chunks a₀).length := by
          rw [hres.length, held ha₀]
          rfl
        rw [hbytes, bytes_of_sum_wraps (by omega) inRange (by omega)] at hright
        obtain ⟨-, hnil⟩ := List.append_eq_nil_iff.mp hright.symm
        have hmax : intMax = 2 ^ 31 - 1 := rfl
        rw [hnil] at hwraps
        simp only [List.length_nil] at hwraps
        omega
    · intro hsum
      obtain ⟨hwithin', hbytes'⟩ := hres.append within (hsum.sum_le hb)
      refine Or.inr ⟨rfl, by rw [hbytes, hbytes', hold], fun a' ha' ↦ ?_⟩
      rw [ha'] at hheld
      obtain ⟨-, hc'⟩ := Prod.mk.inj (Option.some.inj hheld)
      rw [← hc']
      exact hwithin'.fits

/-- A buffer that has been used so and is in no call. -/
theorem held_of_reach {block : Nat → Int → UInt8} {s : BufferState}
    (h : ReachBy buffers.step (WriteUse n) (BufferState.init block) s)
    (idle : s.thread (.output n) = .idle) :
    ∃ ls b tr, Split ls s.mem ∧ ls (.output n) = .idle b tr ∧ ∀ p ∈ b, p.2.Within := by
  obtain ⟨ls, hls⟩ := (writeLogic n).holds_of_reachBy h
    (holds_init (Split.init block) fun _ ↦ ⟨none, ⟨[], [], []⟩, rfl, nofun⟩)
  obtain ⟨b, tr, hl, hwithin⟩ := hls.idle idle
  exact ⟨ls, b, tr, hls.coh, hl, hwithin rfl⟩

/-- A lone call of such a buffer that returns. -/
theorem wroteRight_iff_of_reach {block : Nat → Int → UInt8} {newBlock : Int → UInt8}
    {s : BufferState} {r : Int}
    (h : ReachBy buffers.step (WriteUse n) (BufferState.init block) s)
    (idle : s.thread (.output n) = .idle) (inRange : values.length ≤ intMax)
    (hcall : s.mem.write2buf n values newOk newBlock = some (.value r w)) :
    WroteRight (.output n) values s.mem w r ↔ s.mem.SumFits (.output n) values := by
  obtain ⟨ls, b, tr, hsplit, hl, hwithin⟩ := held_of_reach h idle
  exact wroteRight_iff hsplit hl hwithin inRange hcall

/-- After every run that uses it so, a lone `write2buf` of an output buffer returns, or ends the
process where the pool exits or where bytes have been popped without `write2fd`; and if it returns
it has done right exactly when the sum of both lengths is an `int`. -/
theorem write2buf_right_iff {block : Nat → Int → UInt8} {s : BufferState}
    (h : ReachBy buffers.step (WriteUse n) (BufferState.init block) s)
    (idle : s.thread (.output n) = .idle) (inRange : values.length ≤ intMax) (newOk : Bool)
    (newBlock : Int → UInt8) :
    (∃ out, s.mem.write2buf n values newOk newBlock = some out ∧ ∀ hr, out = .halt hr →
      hr = .exit ∨ (hr = .assertion ∧
        ∃ a ∈ s.mem.dataBuf (.output n), (s.mem.pool.chunks a).head ≠ 0)) ∧
    ∀ r w, s.mem.write2buf n values newOk newBlock = some (.value r w) →
      (WroteRight (.output n) values s.mem w r ↔ s.mem.SumFits (.output n) values) := by
  refine ⟨?_, fun r w ↦ wroteRight_iff_of_reach h idle inRange⟩
  obtain ⟨ls, b, tr, hsplit, hl, -⟩ := held_of_reach h idle
  have hsome : (s.mem.write2buf n values newOk newBlock).isSome := write2buf_isSome
  obtain ⟨out, hout⟩ := Option.isSome_iff_exists.mp hsome
  refine ⟨out, hout, ?_⟩
  rintro hr rfl
  refine ((hsplit.write2buf hl newOk newBlock).2 hr hout).imp id (And.imp_right ?_)
  rintro ⟨p, hp, hhead⟩
  rw [hsplit.eq_held hl] at hp
  obtain ⟨a, ha, rfl⟩ := Option.mem_map.mp hp
  exact ⟨a, ha, hhead⟩

/-- A buffer takes one byte. -/
def writeOne : List BufferAction :=
  .flatten [
    [.start (.output 0) (.write2buf [1]), .perform (.output 0) .none,
      .perform (.output 0) (.alloc true fun _ ↦ 9)],
    .replicate 4 (.perform (.output 0) .none),
    [.finish (.output 0)]]

/-- Two more bytes are written right. -/
theorem two_bytes_written_right :
    ∃ s, run buffers.step (BufferState.init fun _ _ ↦ 9) writeOne = some s ∧
      ∀ r w, s.mem.write2buf 0 [2, 3] true (fun _ ↦ 9) = some (.value r w) →
        WroteRight (.output 0) [2, 3] s.mem w r := by
  have hrun : (run buffers.step (BufferState.init fun _ _ ↦ 9) writeOne).isSome := by
    decide +kernel
  have hfacts : ∀ t ∈ run buffers.step (BufferState.init fun _ _ ↦ 9) writeOne,
      (t.thread (.output 0)).isIdle = true ∧ t.mem.SumFits (.output 0) [2, 3] := by
    decide +kernel
  obtain ⟨s, hs⟩ := Option.isSome_iff_exists.mp hrun
  obtain ⟨hidle, hsum⟩ := hfacts s hs
  have hreach : ReachBy buffers.step (WriteUse 0) (BufferState.init fun _ _ ↦ 9) s :=
    reachBy_of_run hs (by decide +kernel)
  refine ⟨s, hs, fun r w hcall ↦ ?_⟩
  exact ((write2buf_right_iff hreach (Thread.eq_idle hidle) (by decide) true _).2 r w hcall).mpr
    hsum

/-- A listed chunk of the smallest class is handed out for a negative size. -/
theorem allocChunk_of_neg {pool : Mempool} {need : Int} {target : Nat} (hneg : need < 0)
    (hlisted : pool.head 4096 = some target) (newOk : Bool) (block : Int → UInt8) :
    ∃ pool', pool.allocChunk need newOk block = .ok (some target, pool') ∧
      (pool'.mpPool 4096).isSome ∧ ∀ a ≠ target, pool'.chunks a = pool.chunks a := by
  refine ⟨_, by rw [Mempool.allocChunk, findClass_of_neg hneg]; simp only [hlisted]; rfl, ?_, ?_⟩
  · simp [Mempool.modify, Mempool.setHead]
  · intro a ha
    exact Function.update_of_ne ha ..

/-- Once room is reserved the call returns 0. -/
theorem write2buf_of_reserve {w₁ : World} {a : Nat}
    (h : (BufProg.reserve values.length).alone (World.exec (.output n))
      (fun _ ↦ .alloc newOk block) w = some (.value true w₁))
    (held : w₁.dataBuf (.output n) = some a) :
    w.write2buf n values newOk block = some (.value 0 { w₁ with
      pool := (w₁.pool.modify a (·.storeBehind values)).modify a (·.grow values.length) }) := by
  refine Prog.alone_bind_eq_value.mpr ⟨true, w₁, h, ?_⟩
  refine Prog.alone_bind_eq_value.mpr ⟨a, w₁, ?_, rfl⟩
  refine Prog.alone_bind_eq_value.mpr ⟨some a, w₁, ?_, rfl⟩
  exact congrArg (fun p ↦ some (Outcome.value p w₁)) held

/-- With a chunk of the smallest class and another one listed, a call whose sum wraps around
returns. -/
theorem write2buf_of_wraps {a target : Nat} (hdata : w.dataBuf (.output n) = some a)
    (hhead : (w.pool.chunks a).head = 0) (hcapacity : (w.pool.chunks a).capacity = 4096)
    (hlisted : w.pool.head 4096 = some target) (hne : a ≠ target)
    (hroom : int32 (4096 - (w.pool.chunks a).length) < values.length)
    (wraps : int32 (values.length + (w.pool.chunks a).length) < 0) (newOk : Bool)
    (block : Int → UInt8) :
    ∃ r w', w.write2buf n values newOk block = some (.value r w') := by
  obtain ⟨pool, halloc, hkey, hframe⟩ := allocChunk_of_neg wraps hlisted newOk block
  have hretrieve : ∃ pool', (pool.modify target (·.copy (pool.chunks a))).retrieve a =
      .ok pool' := by
    obtain ⟨p, hp⟩ := Option.isSome_iff_exists.mp hkey
    have hcap : ((pool.modify target (·.copy (pool.chunks a))).chunks a).capacity = 4096 := by
      rw [Mempool.chunks_modify_of_ne hne, hframe a hne, hcapacity]
    simp only [Mempool.retrieve, hcap]
    rw [show (pool.modify target (·.copy (pool.chunks a))).mpPool 4096 = some p from hp]
    exact ⟨_, rfl⟩
  obtain ⟨pool', hretrieve⟩ := hretrieve
  have hreserved : (BufProg.reserve values.length).alone (World.exec (.output n))
      (fun _ ↦ .alloc newOk block) w = some (.value true { w with
        pool := pool', dataBuf := Function.update w.dataBuf (.output n) (some target) }) := by
    refine Prog.alone_bind_eq_value.mpr ⟨some a, w, ?_, ?_⟩
    · rw [← hdata]
      rfl
    refine Prog.alone_bind_eq_value.mpr ⟨w.pool.chunks a, w, rfl, ?_⟩
    rw [hhead, hcapacity, if_pos hroom]
    refine Prog.alone_bind_eq_value.mpr ⟨(), w, rfl, ?_⟩
    refine Prog.alone_bind_eq_value.mpr ⟨some target, { w with pool := pool }, ?_, ?_⟩
    · refine (Prog.alone_perform (Effect.allocChunk _)).trans ?_
      simp only [World.exec, halloc]
      rfl
    refine Prog.alone_bind_eq_value.mpr ⟨pool.chunks a, { w with pool := pool }, rfl, ?_⟩
    refine Prog.alone_bind_eq_value.mpr ⟨(), _, rfl, ?_⟩
    refine Prog.alone_bind_eq_value.mpr ⟨(), { w with pool := pool' }, ?_, rfl⟩
    refine (Prog.alone_perform (Effect.retrieve a)).trans ?_
    simp only [World.exec, hretrieve]
    rfl
  exact ⟨0, _, write2buf_of_reserve hreserved (Function.update_self ..)⟩

/-- As many bytes as `int` can count, behind one byte. -/
theorem sum_beyond_int_written_wrong :
    ¬ ∀ (block : Nat → Int → UInt8) (s : BufferState) (n : Nat) (values : List UInt8)
      (newOk : Bool) (newBlock : Int → UInt8) (r : Int) (w : World),
      Reach buffers.step (BufferState.init block) s → s.thread (.output n) = .idle →
        values.length ≤ intMax →
        s.mem.write2buf n values newOk newBlock = some (.value r w) →
          WroteRight (.output n) values s.mem w r := by
  intro h
  have hrun : (run buffers.step (BufferState.init fun _ _ ↦ 9) writeOne).isSome := by
    decide +kernel
  have hfacts : ∀ t ∈ run buffers.step (BufferState.init fun _ _ ↦ 9) writeOne,
      (t.thread (.output 0)).isIdle = true ∧ t.mem.dataBuf (.output 0) = some 0 ∧
        (t.mem.pool.chunks 0).head = 0 ∧ (t.mem.pool.chunks 0).capacity = 4096 ∧
        (t.mem.pool.chunks 0).length = 1 ∧ t.mem.pool.head 4096 = some 1 := by
    decide +kernel
  obtain ⟨s, hs⟩ := Option.isSome_iff_exists.mp hrun
  obtain ⟨hidle, hdata, hhead, hcapacity, hone, hlisted⟩ := hfacts s hs
  have hreach : ReachBy buffers.step (WriteUse 0) (BufferState.init fun _ _ ↦ 9) s :=
    reachBy_of_run hs (by decide +kernel)
  have hlength : (List.replicate 2147483647 (7 : UInt8)).length = 2147483647 :=
    List.length_replicate
  generalize List.replicate 2147483647 (7 : UInt8) = values at hlength
  have inRange : (values.length : Int) ≤ intMax := by
    rw [hlength]
    decide
  have hroom : int32 (4096 - (s.mem.pool.chunks 0).length) < values.length := by
    rw [hone, hlength]
    decide
  have wraps : int32 (values.length + (s.mem.pool.chunks 0).length) < 0 := by
    rw [hone, hlength]
    decide
  obtain ⟨r, w, hcall⟩ := write2buf_of_wraps hdata hhead hcapacity hlisted (by decide) hroom wraps
    true fun _ ↦ 9
  have hright := h _ s 0 values true _ r w hreach.reach (Thread.eq_idle hidle) inRange hcall
  have hsum := (wroteRight_iff_of_reach hreach (Thread.eq_idle hidle) inRange hcall).mp hright 0
    hdata
  rw [hone, hlength] at hsum
  exact absurd hsum (by decide)

end ConcurrentServer.Memory
