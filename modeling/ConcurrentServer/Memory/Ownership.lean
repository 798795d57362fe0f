import ConcurrentServer.Memory.BufferSpec

/-!
# Every chunk has one place

`src/memory/data_buf.cpp`, `src/memory/mem_pool.cpp`. Whatever the buffers of a server are
called for and in whatever order their effects come, a chunk is at one position of one free
list or in the hands of one buffer whenever no call is in progress.
-/

namespace ConcurrentServer.Memory
open ConcurrentServer.Base

/-- What a buffer has returned from. -/
abbrev CallLog := List ((c : Call) × c.Ret)

/-- A proof about the buffers in terms of what they have between their calls: the chunk in
`data_buf` and what has gone out. -/
def bufferLogic {admits : BufferState → BufferAction → Prop}
    (legal : BufferId → Effect → Input → View → Prop) (mayHalt : BufferId → Halt → Prop)
    (inv : BufferId → CallLog → Option (Nat × Chunk) → Trace → Prop)
    (considered : ∀ {s : BufferState} {ls i c e k inp}, Split ls s.mem →
      s.thread i = .running c (.op e k) → admits s (.perform i inp) → legal i e inp (ls i))
    (call : ∀ {s : BufferState} {ls i c b tr}, Split ls s.mem → ls i = .idle b tr →
      inv i (s.log i) b tr → i.offers c = true → admits s (.start i c) →
        wp (View.spec (legal i)) (mayHalt i) c.body
          (fun r l ↦ ∃ b tr, l = .idle b tr ∧ inv i (s.log i ++ [⟨c, r⟩]) b tr)
          (.idle b tr)) :
    ObjectLogic buffers admits View where
  spec i := View.spec (legal i)
  coh := Split
  inv i log l := ∃ b tr, l = .idle b tr ∧ inv i log b tr
  mayHalt := mayHalt
  legal := considered
  value hsplit hok _ hexec := hsplit.value hok hexec
  halt hsplit hok _ hexec := hsplit.halt hok hexec
  call := by
    rintro s ls i c hsplit ⟨b, tr, hl, hinv⟩ hoffers hadmits
    have hcall := call hsplit hl hinv hoffers hadmits
    rwa [← hl] at hcall

/-- A proof whose invariant holds of an unused buffer holds at the start. -/
theorem holds_init {admits : BufferState → BufferAction → Prop}
    {logic : ObjectLogic buffers admits View} {block : Nat → Int → UInt8}
    (coh : logic.coh (fun _ ↦ .idle none ⟨[], [], []⟩) (.init block))
    (inv : ∀ i, logic.inv i [] (.idle none ⟨[], [], []⟩)) :
    ∃ ls, logic.Holds (BufferState.init block) ls :=
  ⟨fun _ ↦ .idle none ⟨[], [], []⟩, coh, inv, nofun⟩

/-- No call is in progress, and every chunk is on a free list or in the `data_buf` of a buffer. -/
structure Settled (s : BufferState) : Prop where
  thread : ∀ i, s.thread i = .idle
  halted : s.halted = none
  split : ∃ ls : BufferId → View, Split ls s.mem ∧ ∀ i, ∃ b tr, ls i = .idle b tr

/-- A started process is settled. -/
theorem settled_init (block : Nat → Int → UInt8) : Settled (BufferState.init block) where
  thread _ := rfl
  halted := rfl
  split := ⟨_, Split.init block, fun _ ↦ ⟨none, ⟨[], [], []⟩, rfl⟩⟩

/-! ### Any call -/

/-- Whatever a buffer is called for, it ends the process or is left with one chunk or none. -/
theorem wp_body {legal : Effect → Input → View → Prop} {mayHalt : Halt → Prop}
    (halts : ∀ h, mayHalt h) (c : Call) (b : Option (Nat × Chunk)) (tr : Trace) :
    wp (View.spec legal) mayHalt c.body (fun _ l ↦ ∃ b tr, l = .idle b tr) (.idle b tr) := by
  have settled {b : Option (Nat × Chunk)} {tr : Trace} :
      ∃ b' tr', View.idle b tr = .idle b' tr' := ⟨b, tr, rfl⟩
  have asserts := halts .assertion
  cases c with
  | readFromFd fd =>
    exact wp_readFromFd (halts _) asserts settled (fun _ _ _ _ _ _ ↦ settled)
      (fun _ _ _ _ _ _ _ ↦ ⟨nofun, settled⟩) nofun
  | adjust => exact wp_adjust nofun settled
  | write2buf values =>
    exact wp_write2buf (halts _) (Or.inl asserts) (fun _ ↦ settled) fun _ _ _ ↦ settled
  | write2fd fd =>
    exact wp_write2fd (Or.inl asserts) (fun _ ↦ settled) fun _ _ _ _ _ _ ↦ settled
  | pop len => exact wp_pop asserts (fun _ _ _ _ _ ↦ settled) fun _ _ _ _ _ ↦ settled
  | clear => exact wp_clear settled
  | addTask fd => exact wp_addTask settled
  | send fd values =>
    exact wp_send (halts _) (Or.inl asserts) (fun _ ↦ settled) fun _ _ _ ↦ settled
  | doWrite fd =>
    exact wp_doWrite (fun _ _ ↦ True) trivial (Or.inl asserts)
      (fun _ _ _ _ _ _ _ _ ↦ trivial) (fun _ _ _ ↦ settled) fun _ ↦ settled

/-- Chunks stay where one buffer or one list has them, whatever is done. -/
def ownershipLogic : ObjectLogic buffers (fun _ _ ↦ True) View :=
  bufferLogic (fun _ _ _ _ ↦ True) (fun _ _ ↦ True) (fun _ _ _ _ ↦ True)
    (fun _ _ _ ↦ trivial)
    (fun _ _ _ _ _ ↦ wp_mono (wp_body (fun _ ↦ trivial) _ _ _)
      fun _ _ ⟨b, tr, h⟩ ↦ ⟨b, tr, h, trivial⟩)

/-! ### Places -/

/-- Where a chunk can be. -/
inductive Place
  /-- Behind `position` others on the list of class `index`. -/
  | freeList (index : Int) (position : Nat)
  /-- In the `data_buf` of a buffer. -/
  | held (i : BufferId)
  deriving DecidableEq, Repr

/-- Chunk `a` is at this place. -/
def World.At (w : World) (a : Nat) : Place → Prop
  | .freeList index position => nthNode w.pool.next (w.pool.head index) position = some a
  | .held i => w.dataBuf i = some a

/-- The chunk of a buffer that is in no call. -/
theorem Split.eq_held {ls : BufferId → View} {w : World} (h : Split ls w) {i : BufferId}
    {b : Option (Nat × Chunk)} {tr : Trace} (hi : ls i = .idle b tr) :
    b = (w.dataBuf i).map fun a ↦ (a, w.pool.chunks a) := by
  rw [h.dataBuf, hi]
  cases b with
  | none => rfl
  | some p =>
    obtain ⟨a, c⟩ := p
    have hchunk := h.chunk i a c (by rw [hi]; exact View.chunk_idle_some)
    simp only [View.dataBuf_idle_some, Option.map_some, hchunk]

/-- A buffer without `data_buf` that is in no call has no chunk. -/
theorem Split.eq_none {ls : BufferId → View} {w : World} (h : Split ls w) {i : BufferId}
    {b : Option (Nat × Chunk)} {tr : Trace} (hi : ls i = .idle b tr)
    (empty : w.dataBuf i = none) : b = none := by
  rw [h.eq_held hi, empty, Option.map_none]

/-- What has gone out of a buffer that is in no call. -/
theorem Split.trace_eq {ls : BufferId → View} {w : World} (h : Split ls w) {i : BufferId}
    {b : Option (Nat × Chunk)} {tr : Trace} (hi : ls i = .idle b tr) : w.trace i = tr := by
  rw [h.trace, hi]
  cases b <;> rfl

/-- What is read off the chunk of a buffer that is in no call. -/
theorem Split.map_chunk {ls : BufferId → View} {w : World} (h : Split ls w) {i : BufferId}
    {b : Option (Nat × Chunk)} {tr : Trace} (hi : ls i = .idle b tr) {α : Type} (f : Chunk → α) :
    (w.dataBuf i).map (fun a ↦ f (w.pool.chunks a)) = b.map fun p ↦ f p.2 := by
  rw [h.eq_held hi, Option.map_map]
  rfl

/-- The bytes a buffer holds are those of its chunk. -/
theorem Split.bytes_eq {ls : BufferId → View} {w : World} (h : Split ls w) {i : BufferId}
    {b : Option (Nat × Chunk)} {tr : Trace} (hi : ls i = .idle b tr) :
    w.bytes i = View.content b := by
  rw [World.bytes, h.map_chunk hi Chunk.bytes]
  cases b with
  | none => rfl
  | some p => rfl

/-- `length()` of a buffer is that of its chunk. -/
theorem Split.length_eq {ls : BufferId → View} {w : World} (h : Split ls w) {i : BufferId}
    {b : Option (Nat × Chunk)} {tr : Trace} (hi : ls i = .idle b tr) :
    w.length i = View.lengthOf b := by
  rw [World.length, h.map_chunk hi Chunk.length]
  rfl

/-- A buffer that is in no call has the chunk of its `data_buf` and no other. -/
theorem Split.chunk_isSome {ls : BufferId → View} {w : World} (h : Split ls w) {i : BufferId}
    {b : Option (Nat × Chunk)} {tr : Trace} (hi : ls i = .idle b tr) {a : Nat} :
    ((ls i).chunk a).isSome ↔ w.dataBuf i = some a := by
  rw [h.dataBuf, hi]
  cases b with
  | none => simp [View.idle]
  | some p =>
    obtain ⟨a', c⟩ := p
    by_cases ha : a = a'
    · simp [View.idle, ha]
    · simp [View.idle, ha, Ne.symm ha]

/-- Between calls every chunk is in one place. -/
theorem Split.existsUnique_at {ls : BufferId → View} {w : World} (h : Split ls w)
    (settled : ∀ i, ∃ b tr, ls i = .idle b tr) {a : Nat} (ha : a < w.pool.created) :
    ∃! p, w.At a p := by
  obtain ⟨free, hpart⟩ := h.pool
  have held (i : BufferId) : ((ls i).chunk a).isSome ↔ w.dataBuf i = some a := by
    obtain ⟨b, tr, hi⟩ := settled i
    exact h.chunk_isSome hi
  have listed (index : Int) (position : Nat) :
      w.At a (.freeList index position) ↔ (free index)[position]? = some a := by
    rw [World.At, (hpart.linked index).nthNode]
  have notHeld {index : Int} {position : Nat} (hp : w.At a (.freeList index position))
      (i : BufferId) : w.dataBuf i ≠ some a := fun hi ↦
    (hpart.listed index a (List.mem_of_getElem? ((listed ..).mp hp))).2.1 ⟨i, (held i).mpr hi⟩
  rcases hpart.covered a ha with ⟨i, hi⟩ | hmem
  · refine ⟨.held i, (held i).mp hi, fun p hp ↦ ?_⟩
    cases p with
    | freeList index position => exact absurd ((held i).mp hi) (notHeld hp i)
    | held j => rw [h.apart i j a hi ((held j).mpr hp)]
  · obtain ⟨position, hposition⟩ := List.mem_iff_getElem?.mp hmem
    refine ⟨.freeList _ position, (listed ..).mpr hposition, fun p hp ↦ ?_⟩
    cases p with
    | freeList index position' =>
      have hposition' := (listed ..).mp hp
      obtain rfl : index = (w.pool.chunks a).capacity :=
        ((hpart.listed index a (List.mem_of_getElem? hposition')).2.2.1).symm
      obtain ⟨hlt, -⟩ := List.getElem?_eq_some_iff.mp hposition'
      rw [(List.getElem?_inj hlt (hpart.nodup _)).mp (hposition'.trans hposition.symm)]
    | held i => exact absurd hp (notHeld ((listed ..).mpr hposition) i)

/-- After every history of calls of any buffers, with effects that come in any order and with
any results, each chunk that the pool has created is in exactly one place whenever no call is in
progress. -/
theorem chunk_has_one_place {block : Nat → Int → UInt8} {s : BufferState}
    (h : Reach buffers.step (BufferState.init block) s) (idle : ∀ i, s.thread i = .idle) {a : Nat}
    (ha : a < s.mem.pool.created) : ∃! p, s.mem.At a p := by
  obtain ⟨ls, hls⟩ := ownershipLogic.holds_of_reachBy h
    (holds_init (Split.init block) fun _ ↦ ⟨none, ⟨[], [], []⟩, rfl, trivial⟩)
  refine Split.existsUnique_at hls.coh (fun i ↦ ?_) ha
  obtain ⟨b, tr, hl, -⟩ := hls.idle (idle i)
  exact ⟨b, tr, hl⟩

/-- A connection sends two bytes, and `write` accepts one of them before it would block. -/
def sendAndWrite : List BufferAction :=
  .flatten [
    [.start (.output 0) (.send 7 [1, 2]), .perform (.output 0) .none, .perform (.output 0) .none,
      .perform (.output 0) (.alloc true fun _ ↦ 9)],
    .replicate 5 (.perform (.output 0) .none),
    [.finish (.output 0), .start (.output 0) (.doWrite 7), .loop (.output 0)],
    .replicate 5 (.perform (.output 0) .none),
    [.loop (.output 0), .perform (.output 0) (.write (.count 1))],
    .replicate 2 (.perform (.output 0) .none),
    [.loop (.output 0)],
    .replicate 5 (.perform (.output 0) .none),
    [.loop (.output 0), .perform (.output 0) (.write .eagain)],
    .replicate 2 (.perform (.output 0) .none),
    [.finish (.output 0)]]

/-- The first chunk of the pool has one place after two calls. -/
theorem first_chunk_has_one_place :
    ∃ s, run buffers.step (BufferState.init fun _ _ ↦ 9) sendAndWrite = some s ∧
      ∃! p, s.mem.At 0 p := by
  have hrun : (run buffers.step (BufferState.init fun _ _ ↦ 9) sendAndWrite).isSome := by
    decide +kernel
  have hfacts : ∀ t ∈ run buffers.step (BufferState.init fun _ _ ↦ 9) sendAndWrite,
      (t.thread (.output 0)).isIdle = true ∧ 0 < t.mem.pool.created := by
    decide +kernel
  obtain ⟨s, hs⟩ := Option.isSome_iff_exists.mp hrun
  obtain ⟨hidle, hcreated⟩ := hfacts s hs
  refine ⟨s, hs, chunk_has_one_place (reach_of_run hs) (fun i ↦ ?_) hcreated⟩
  by_cases hi : i = .output 0
  · rw [hi]
    exact Thread.eq_idle hidle
  · exact ObjectSystem.thread_of_run hs (by simp [sendAndWrite, ObjectAction.object, hi])

end ConcurrentServer.Memory
