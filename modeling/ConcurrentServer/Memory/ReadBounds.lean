import ConcurrentServer.Memory.Ownership

/-!
# Reading stays inside the chunk

`src/memory/data_buf.cpp:43–89`, `src/memory/mem_pool.cpp:38–78`. `read_from_fd` reserves what
`FIONREAD` reports and requests that much, but 4096 bytes where it reports 0; the size that it
asks the pool for is a sum of two `int`s. No byte is stored behind a chunk unless a reported 0 is
followed by more data than a held chunk has room for, or that sum wraps around.
-/

namespace ConcurrentServer.Memory
open ConcurrentServer.Base

/-- The number of bytes that a call requests with the `read` it is at. -/
def readRequest : Thread Effect Effect.Result Call Call.Ret → Option Int
  | .running _ (.op (.read _ m) _) => some m
  | _ => none

/-- The kernel below buffer `n`: `FIONREAD` reports no negative number, and `read` returns no more
than is requested. -/
def ReadUse (n : Nat) (s : BufferState) : BufferAction → Prop
  | .perform i (.fionread (some reported)) => i = .input n → 0 ≤ int32 reported
  | .perform i (.read (.bytes values)) => i = .input n →
    ∀ m ∈ readRequest (s.thread i), values.length ≤ m
  | _ => True

/-- While a chunk is held: what `FIONREAD` reports and the length are together an `int`, or the
length is at most the smallest class; what is read in answer to a reported 0, for which 4096 bytes
are requested, or where that sum is no `int`, fits; and no negative `pop` makes the length exceed
the capacity. -/
def ReadRoom (n : Nat) (s : BufferState) : BufferAction → Prop
  | .start i (.pop len) => i = .input n → ∀ a ∈ s.mem.dataBuf i,
      (s.mem.pool.chunks a).length - len ≤ (s.mem.pool.chunks a).capacity
  | .perform i (.fionread (some reported)) => i = .input n → ∀ a ∈ s.mem.dataBuf i,
      int32 reported + (s.mem.pool.chunks a).length ≤ intMax ∨
        (s.mem.pool.chunks a).length ≤ 4096
  | .perform i (.read (.bytes values)) => i = .input n →
    ∀ m ∈ readRequest (s.thread i), ∀ a ∈ s.mem.dataBuf i,
      m = 4096 ∨ intMax < m + (s.mem.pool.chunks a).length →
        (s.mem.pool.chunks a).length + values.length ≤ (s.mem.pool.chunks a).capacity
  | _ => True

instance (n : Nat) (s : BufferState) : DecidablePred (ReadUse n s)
  | .perform i inp =>
    match inp with
    | .fionread (some reported) =>
      (inferInstance : Decidable (i = .input n → 0 ≤ int32 reported))
    | .read (.bytes values) =>
      (inferInstance : Decidable (i = .input n →
        ∀ m ∈ readRequest (s.thread i), (values.length : Int) ≤ m))
    | .fionread .none | .read .eintr | .read .error | .none | .alloc _ _ | .write _ =>
      isTrue trivial
  | .start _ _ | .loop _ | .finish _ => isTrue trivial

instance (n : Nat) (s : BufferState) : DecidablePred (ReadRoom n s)
  | .start i c =>
    match c with
    | .pop len =>
      (inferInstance : Decidable (i = .input n → ∀ a ∈ s.mem.dataBuf i,
        (s.mem.pool.chunks a).length - len ≤ (s.mem.pool.chunks a).capacity))
    | .readFromFd _ | .adjust | .write2buf _ | .write2fd _ | .clear | .addTask _ | .send _ _
    | .doWrite _ => isTrue trivial
  | .perform i inp =>
    match inp with
    | .fionread (some reported) =>
      (inferInstance : Decidable (i = .input n → ∀ a ∈ s.mem.dataBuf i,
        int32 reported + (s.mem.pool.chunks a).length ≤ intMax ∨
          (s.mem.pool.chunks a).length ≤ 4096))
    | .read (.bytes values) =>
      (inferInstance : Decidable (i = .input n →
        ∀ m ∈ readRequest (s.thread i), ∀ a ∈ s.mem.dataBuf i,
          m = 4096 ∨ intMax < m + (s.mem.pool.chunks a).length →
            (s.mem.pool.chunks a).length + (values.length : Int) ≤
              (s.mem.pool.chunks a).capacity))
    | .fionread .none | .read .eintr | .read .error | .none | .alloc _ _ | .write _ =>
      isTrue trivial
  | .loop _ | .finish _ => isTrue trivial

/-- What input buffer `n` is about to store lies inside its chunk, and between its calls it is not
longer than the chunk. -/
structure StaysInside (n : Nat) (s : BufferState) : Prop where
  store : ∀ c a f k, s.thread (.input n) = .running c (.op (.modify a f) k) →
    (s.mem.pool.chunks a).StoresInside f
  length : s.thread (.input n) = .idle → ∀ a ∈ s.mem.dataBuf (.input n),
    (s.mem.pool.chunks a).length ≤ (s.mem.pool.chunks a).capacity

/-! ### The specification of one buffer -/

/-- The conditions, on what the buffer owns. -/
def ReadLegal : Effect → Input → View → Prop
  | .fionread _, .fionread (some reported), l => 0 ≤ int32 reported ∧
      ∀ a c, l.dataBuf = some a → l.chunk a = some c →
        int32 reported + c.length ≤ intMax ∨ c.length ≤ 4096
  | .read _ m, .read (.bytes values), l => values.length ≤ m ∧
      ∀ a c, l.dataBuf = some a → l.chunk a = some c →
        m = 4096 ∨ intMax < m + c.length → c.length + values.length ≤ c.capacity
  | _, _, _ => True

/-- `FIONREAD` answers what the kernel reports. -/
def Answers : (e : Effect) → Input → Outcome Halt e.Result View → Prop
  | .fionread _, inp, out => ∃ result l, inp = .fionread result ∧
      out = .value (result.map int32) l
  | _, _, _ => True

/-- What `FIONREAD` can answer. -/
def Reports (result : Option Int) (l : View) : Prop :=
  ∀ need ∈ result, 0 ≤ need ∧ ∀ a c, l.dataBuf = some a → l.chunk a = some c →
    need + c.length ≤ intMax ∨ c.length ≤ 4096

/-- Effects whose stores stay inside. -/
def boundedSpec : LocalSpec Effect Effect.Result Input Halt View where
  ok e l := View.Ok e l ∧ View.Inside e l
  legal := ReadLegal
  act e inp l out := View.Act e inp l out ∧ Answers e inp out

instance : View.Narrows boundedSpec True Reports where
  ok hok inside := ⟨hok, inside trivial⟩
  act hact := hact.1
  reports := by
    rintro fd inp l result l' hlegal ⟨-, reported, _, rfl, he⟩ need hneed
    cases he
    cases reported with
    | none => cases hneed
    | some reported =>
      cases hneed
      exact hlegal

/-- What is admitted is legal. -/
theorem readLegal_of_use {n : Nat} {s : BufferState} {ls : BufferId → View} {c : Call}
    {e : Effect} {k : e.Result → BufProg c.Ret} {inp : Input} (hsplit : Split ls s.mem)
    (hth : s.thread (.input n) = .running c (.op e k)) (use : ReadUse n s (.perform (.input n) inp))
    (room : ReadRoom n s (.perform (.input n) inp)) : ReadLegal e inp (ls (.input n)) := by
  have held {a : Nat} {c' : Chunk} (hdata : (ls (.input n)).dataBuf = some a)
      (hc' : (ls (.input n)).chunk a = some c') :
      a ∈ s.mem.dataBuf (.input n) ∧ s.mem.pool.chunks a = c' :=
    ⟨(hsplit.dataBuf _).trans hdata, hsplit.chunk _ a c' hc'⟩
  cases e with
  | fionread fd =>
    cases inp with
    | fionread result =>
      cases result with
      | none => trivial
      | some reported =>
        refine ⟨use rfl, fun a c' hdata hc' ↦ ?_⟩
        obtain ⟨ha, rfl⟩ := held hdata hc'
        exact room rfl a ha
    | _ => trivial
  | read fd m =>
    cases inp with
    | read result =>
      cases result with
      | bytes values =>
        have hrequest : readRequest (s.thread (.input n)) = some m := by
          rw [hth]
          rfl
        refine ⟨use rfl m hrequest, fun a c' hdata hc' ↦ ?_⟩
        obtain ⟨ha, rfl⟩ := held hdata hc'
        exact room rfl m hrequest a ha
      | _ => trivial
    | _ => trivial
  | _ => trivial

/-- The kernel's report is what `FIONREAD` answers. -/
theorem answers_of_exec {w w' : World} {i : BufferId} {e : Effect} {inp : Input} {r : e.Result}
    {l : View} (hexec : w.exec i e inp = some (.value r w')) : Answers e inp (.value r l) := by
  cases e with
  | fionread fd =>
    cases inp with
    | fionread result =>
      obtain ⟨rfl, -⟩ := Outcome.value.inj (Option.some.inj hexec)
      exact ⟨result, l, rfl, rfl⟩
    | _ => cases hexec
  | _ => trivial

/-! ### Calls -/

variable {b : Option (Nat × Chunk)} {tr : Trace} {need : Int} {c : Chunk}

/-- What is copied into a larger chunk fits there. -/
theorem Reports.copies (h : Reports (some need) (.idle b tr)) (a : Nat) (c : Chunk) (n : Int)
    (hb : b = some (a, c)) (hclass : Mempool.findClass (int32 (need + c.length)) = some n)
    (within : c.Within) : c.length ≤ n := by
  subst hb
  obtain ⟨nonneg, hsum⟩ := h need rfl
  obtain ⟨hlength, -, -⟩ := within
  obtain ⟨hlo, -⟩ := Mempool.findClass_range hclass
  cases hsum a c rfl View.chunk_idle_some with
  | inl hle =>
    have hmax : intMax = 2 ^ 31 - 1 := rfl
    rw [int32_of_range (by omega) (by omega)] at hclass
    have := (Mempool.findClass_eq_some hclass).2
    omega
  | inr hle => omega

/-- What is read fits behind what the buffer holds. -/
theorem Reserved.read_fits (fd : Int) {a : Nat} {values : List UInt8} (h : Reserved need b c)
    (within : ∀ p ∈ b, p.2.Within) (nonneg : 0 ≤ need)
    (hlegal : ReadLegal (.read fd (if need = 0 then 4096 else need)) (.read (.bytes values))
      (.idle (some (a, c)) tr)) : c.length + values.length ≤ c.capacity := by
  obtain ⟨hle, hfits⟩ := hlegal
  have hfits := hfits a c rfl View.chunk_idle_some
  by_cases hzero : need = 0
  · exact hfits (Or.inl (if_pos hzero))
  · rw [if_neg hzero] at hle hfits
    by_cases hwraps : intMax < need + c.length
    · exact hfits (Or.inr hwraps)
    · have hroom := h.room within nonneg fun _ ↦ by
        rw [← h.length]
        exact Int.not_lt.mp hwraps
      omega

/-- An input buffer that is inside its chunk stays so in every call. -/
theorem wp_bounded {n : Nat} {c : Call} {mayHalt : Halt → Prop} (halts : ∀ h, mayHalt h)
    (within : ∀ p ∈ b, p.2.Within) (hoffers : (BufferId.input n).offers c = true)
    (popped : ∀ len, c = .pop len → ∀ p ∈ b, p.2.length - len ≤ p.2.capacity) :
    wp boundedSpec mayHalt c.body
      (fun _ l ↦ ∃ b tr, l = .idle b tr ∧ ∀ p ∈ b, p.2.Within) (.idle b tr) := by
  cases c with
  | readFromFd fd =>
    have copied {need : Int} (hreports : Reports (some need) (.idle b tr)) (a : Nat) (c : Chunk)
        (n : Int) (hb : b = some (a, c))
        (hclass : Mempool.findClass (int32 (need + c.length)) = some n) : c.length ≤ n :=
      hreports.copies a c n hb hclass (within (a, c) hb)
    refine wp_readFromFd (halts _) (halts _) ⟨b, tr, rfl, within⟩ ?_ ?_
      fun _ need hreports ↦ copied hreports
    · intro a c need hreports hres _
      exact ⟨some (a, c), tr, rfl, (hres.within within (copied hreports)).some⟩
    · intro a c need values hreports hres hlegal
      have hc := hres.within within (copied hreports)
      have hfits := hres.read_fits fd within (hreports need rfl).1 hlegal
      refine ⟨fun _ ↦ hfits, some (a, c.afterRead values), _, rfl, ?_⟩
      exact (hc.afterRead hfits).some
  | adjust =>
    refine wp_adjust (fun _ ↦ within) ⟨_, tr, rfl, ?_⟩
    rintro _ hmem
    obtain ⟨p, hp, rfl⟩ := Option.map_eq_some_iff.mp hmem
    exact (within p hp).adjust
  | pop len =>
    refine wp_pop (halts _) (fun a c hb hle _ ↦ ?_) fun _ _ _ _ _ ↦ ⟨none, tr, rfl, nofun⟩
    exact ⟨_, tr, rfl, ((within _ hb).pop hle (popped len rfl _ hb)).some⟩
  | clear => exact wp_clear ⟨none, tr, rfl, nofun⟩
  | _ => cases hoffers

/-- The proof for buffer `n`; of the others nothing is asked. -/
def boundedLogic (n : Nat) :
    ObjectLogic buffers (fun s a ↦ ReadUse n s a ∧ ReadRoom n s a) View where
  spec i := if i = .input n then boundedSpec else View.spec fun _ _ _ ↦ True
  coh := Split
  inv i _ l := ∃ b tr, l = .idle b tr ∧ (i = .input n → ∀ p ∈ b, p.2.Within)
  mayHalt _ _ := True
  legal := by
    intro s ls i c e k inp hsplit hth hadmits
    by_cases hi : i = .input n
    · subst hi
      rw [if_pos rfl]
      exact readLegal_of_use hsplit hth hadmits.1 hadmits.2
    · rw [if_neg hi]
      trivial
  value := by
    intro ls w i e inp r w' hsplit hok _ hexec
    by_cases hi : i = .input n
    · rw [if_pos hi] at hok ⊢
      obtain ⟨l', hact, hsplit'⟩ := hsplit.value hok.1 hexec
      exact ⟨l', ⟨hact, answers_of_exec hexec⟩, hsplit'⟩
    · rw [if_neg hi] at hok ⊢
      exact hsplit.value hok hexec
  halt := by
    intro ls w i e inp h hsplit hok _ hexec
    by_cases hi : i = .input n
    · rw [if_pos hi] at hok ⊢
      refine ⟨hsplit.halt hok.1 hexec, ?_⟩
      cases e with
      | fionread fd => cases inp <;> cases hexec
      | _ => trivial
    · rw [if_neg hi] at hok ⊢
      exact hsplit.halt hok hexec
  call := by
    rintro s ls i c hsplit ⟨b, tr, hl, hwithin⟩ hoffers ⟨-, hroom⟩
    rw [hl]
    by_cases hi : i = .input n
    · subst hi
      rw [if_pos rfl]
      refine wp_mono (wp_bounded (fun _ ↦ trivial) (hwithin rfl) hoffers ?_) ?_
      · rintro len rfl p hp
        rw [hsplit.eq_held hl] at hp
        obtain ⟨a, ha, rfl⟩ := Option.mem_map.mp hp
        exact hroom rfl a ha
      · rintro r l ⟨b, tr, hl, hholds⟩
        exact ⟨b, tr, hl, fun _ ↦ hholds⟩
    · rw [if_neg hi]
      refine wp_mono (wp_body (fun _ ↦ trivial) c b tr) ?_
      rintro r l ⟨b, tr, hl⟩
      exact ⟨b, tr, hl, fun h ↦ absurd h hi⟩

/-- In every run in which the kernel keeps its promises and data meets room, no store of an input
buffer reaches behind its chunk, and after every call its length is at most the capacity. -/
theorem reads_stay_inside {block : Nat → Int → UInt8} {s : BufferState} {n : Nat}
    (h : ReachBy buffers.step (fun s a ↦ ReadUse n s a ∧ ReadRoom n s a)
      (BufferState.init block) s) : StaysInside n s := by
  obtain ⟨ls, hls⟩ := (boundedLogic n).holds_of_reachBy h
    (holds_init (Split.init block) fun _ ↦ ⟨none, ⟨[], [], []⟩, rfl, nofun⟩)
  constructor
  · intro c a f k hth
    have hguar := hls.guarantee (.input n)
    rw [hth] at hguar
    have hok : (if BufferId.input n = .input n then boundedSpec else View.spec fun _ _ _ ↦ True).ok
        (.modify a f) (ls (.input n)) := hguar.1
    rw [if_pos rfl] at hok
    obtain ⟨⟨c', hc', -⟩, hinside⟩ := hok
    rw [hls.coh.chunk _ a c' hc']
    exact hinside c' hc'
  · intro hth a ha
    obtain ⟨b, tr, hl, hwithin⟩ := hls.idle hth
    have hb : b = some (a, s.mem.pool.chunks a) := by
      rw [hls.coh.eq_held hl, ha]
      rfl
    exact (hwithin rfl _ hb).fits

/-- An input buffer receives three bytes; then `FIONREAD` reports 0, and `values` arrive before the
`read`. -/
def readAgain (values : List UInt8) : List BufferAction :=
  .flatten [
    [.start (.input 0) (.readFromFd 7), .perform (.input 0) (.fionread (some 3)),
      .perform (.input 0) .none, .perform (.input 0) (.alloc true fun _ ↦ 9)],
    .replicate 2 (.perform (.input 0) .none),
    [.loop (.input 0), .perform (.input 0) (.read (.bytes [1, 2, 3]))],
    .replicate 3 (.perform (.input 0) .none),
    [.finish (.input 0), .start (.input 0) (.readFromFd 7),
      .perform (.input 0) (.fionread (some 0))],
    .replicate 4 (.perform (.input 0) .none),
    [.loop (.input 0), .perform (.input 0) (.read (.bytes values))],
    .replicate 3 (.perform (.input 0) .none),
    [.finish (.input 0)]]

/-- Two bytes find room. -/
theorem two_more_bytes_stay_inside :
    ∃ s, run buffers.step (BufferState.init fun _ _ ↦ 9) (readAgain [4, 5]) = some s ∧
      StaysInside 0 s := by
  have hrun : (run buffers.step (BufferState.init fun _ _ ↦ 9) (readAgain [4, 5])).isSome := by
    decide +kernel
  obtain ⟨s, hs⟩ := Option.isSome_iff_exists.mp hrun
  exact ⟨s, hs, reads_stay_inside (reachBy_of_run hs (by decide +kernel))⟩

/-- As many bytes as are requested do not. -/
theorem requested_bytes_overrun :
    ¬ ∀ (block : Nat → Int → UInt8) (s : BufferState) (n : Nat),
      ReachBy buffers.step (ReadUse n) (BufferState.init block) s → StaysInside n s := by
  intro h
  have hrun : (run buffers.step (BufferState.init fun _ _ ↦ 9)
      (readAgain (.replicate 4096 7))).isSome := by
    decide +kernel
  have hfacts : ∀ t ∈ run buffers.step (BufferState.init fun _ _ ↦ 9)
      (readAgain (.replicate 4096 7)),
      (t.thread (.input 0)).isIdle = true ∧ ∃ a ∈ t.mem.dataBuf (.input 0),
        (t.mem.pool.chunks a).capacity < (t.mem.pool.chunks a).length := by
    decide +kernel
  obtain ⟨s, hs⟩ := Option.isSome_iff_exists.mp hrun
  obtain ⟨hidle, a, ha, hlt⟩ := hfacts s hs
  have hreach : ReachBy buffers.step (ReadUse 0) (BufferState.init fun _ _ ↦ 9) s :=
    reachBy_of_run hs (by decide +kernel)
  exact absurd ((h _ s 0 hreach).length (Thread.eq_idle hidle) a ha) (Int.not_le.mpr hlt)

end ConcurrentServer.Memory
