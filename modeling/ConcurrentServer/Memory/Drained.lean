import ConcurrentServer.Memory.Ownership

/-!
# Drained buffers

`src/memory/data_buf.cpp`, `src/net/tcp_conn.cpp:61–97`. `BufferBase::pop` gives an emptied chunk
back to the pool. The other operations keep an empty chunk where they end with one: after a `write`
that accepts everything, after a `read` into an empty chunk that fails or finds no bytes, and after
no bytes are written into an empty buffer.
-/

namespace ConcurrentServer.Memory
open ConcurrentServer.Base

/-- No memory of the pool is pinned by a buffer without bytes: a buffer that is in no call has a
chunk only for a positive `length()`, and when no call is in progress every chunk that is not in a
buffer with bytes is on a free list. -/
structure PinsNothing (s : BufferState) : Prop where
  held : ∀ i, s.thread i = .idle → s.mem.dataBuf i ≠ none → 0 < s.mem.length i
  returned : (∀ i, s.thread i = .idle) → ∀ a < s.mem.pool.created,
    (∀ i, s.mem.dataBuf i = some a → s.mem.length i = 0) →
      ∃ index position, s.mem.At a (.freeList index position)

/-- A call into a buffer of this length neither reserves a chunk for no bytes nor makes the length
exceed an `int`. -/
def Call.KeepsBytes (length : Int) : Call → Prop
  | .write2buf values | .send _ values =>
    0 < length + values.length ∧ length + values.length ≤ intMax
  | .pop len => 0 < length → length - len ≤ intMax
  | _ => True

/-- What `write` accepts of this length, or what `read` adds to it, leaves bytes in the chunk, and
no more than an `int` can tell. -/
def Input.KeepsBytes (length : Int) : Input → Prop
  | .write (.count n) => n < length
  | .read .error => 0 < length
  | .read (.bytes values) => 0 < length + values.length ∧ length + values.length ≤ intMax
  | _ => True

/-- No step leaves an empty chunk in a buffer. -/
def KeepsBytes (s : BufferState) : BufferAction → Prop
  | .start i c => c.KeepsBytes (s.mem.length i)
  | .perform i inp => inp.KeepsBytes (s.mem.length i)
  | _ => True

instance (length : Int) : DecidablePred (Call.KeepsBytes length)
  | .write2buf values | .send _ values =>
    (inferInstance : Decidable (0 < length + (values.length : Int) ∧
      length + (values.length : Int) ≤ intMax))
  | .pop len => (inferInstance : Decidable (0 < length → length - len ≤ intMax))
  | .readFromFd _ | .adjust | .write2fd _ | .clear | .addTask _ | .doWrite _ => isTrue trivial

instance (length : Int) : DecidablePred (Input.KeepsBytes length)
  | .write (.count n) => (inferInstance : Decidable ((n : Int) < length))
  | .read .error => (inferInstance : Decidable (0 < length))
  | .read (.bytes values) =>
    (inferInstance : Decidable (0 < length + (values.length : Int) ∧
      length + (values.length : Int) ≤ intMax))
  | .write .eintr | .write .eagain | .write .error | .read .eintr | .none | .alloc _ _
  | .fionread _ => isTrue trivial

instance (s : BufferState) : DecidablePred (KeepsBytes s)
  | .start i c => (inferInstance : Decidable (c.KeepsBytes (s.mem.length i)))
  | .perform i inp => (inferInstance : Decidable (inp.KeepsBytes (s.mem.length i)))
  | .loop _ | .finish _ => isTrue trivial

/-! ### Chunks with bytes -/

/-- The chunk has bytes, as many as an `int` can tell. -/
structure Chunk.Filled (c : Chunk) : Prop where
  pos : 0 < c.length
  fits : c.length ≤ intMax

namespace Chunk.Filled

variable {c : Chunk}

theorem some {a : Nat} (h : c.Filled) : ∀ p ∈ some (a, c), p.2.Filled :=
  fun _ hp ↦ Option.some.inj hp ▸ h

theorem adjust (h : c.Filled) : c.adjust.Filled := by
  obtain ⟨hpos, hfits⟩ := h
  exact ⟨by rwa [length_adjust], by rwa [length_adjust]⟩

/-- A `pop` that leaves some bytes. -/
theorem pop {len : Int} (pos : 0 < c.length - len) (fits : c.length - len ≤ intMax) :
    (c.pop len).Filled := by
  have hrest : (c.pop len).length = c.length - len := by
    unfold intMax at fits
    exact int32_of_range (by omega) (by omega)
  exact ⟨by rwa [hrest], by rwa [hrest]⟩

/-- The length grows to a positive one. -/
theorem grow {n : Int} (pos : 0 < c.length + n) (fits : c.length + n ≤ intMax) :
    (c.grow n).Filled := by
  have hsum : (c.grow n).length = c.length + n := by
    unfold intMax at fits
    exact int32_of_range (by omega) (by omega)
  exact ⟨by rwa [hsum], by rwa [hsum]⟩

/-- Bytes are read, or there were some. -/
theorem afterRead {values : List UInt8} (nonneg : 0 ≤ c.length)
    (pos : 0 < c.length + values.length) (fits : c.length + values.length ≤ intMax) :
    (c.afterRead values).Filled := by
  have hvalues : int32 values.length = values.length := by
    unfold intMax at fits
    exact int32_of_range (by omega) (by omega)
  rw [Chunk.afterRead, hvalues]
  split
  · exact grow pos fits
  · next hnone =>
    have hpos : 0 < c.length := by
      omega
    have hfits : c.length ≤ intMax := by
      omega
    exact ⟨hpos, hfits⟩

/-- `write` does not accept all bytes. -/
theorem afterWrite (h : c.Filled) {n : Nat} (left : n < c.length) : (c.afterWrite n).Filled := by
  obtain ⟨hpos, hfits⟩ := h
  have hn : int32 n = n := by
    unfold intMax at hfits
    exact int32_of_range (by omega) (by omega)
  rw [Chunk.afterWrite, hn]
  split
  · exact (pop (by omega) (by omega)).adjust
  · exact ⟨hpos, hfits⟩

end Chunk.Filled

/-! ### The specification of a buffer -/

/-- The condition on an input, on what the buffer owns. -/
def FilledLegal (_ : Effect) (inp : Input) (l : View) : Prop :=
  ∀ a c, l.dataBuf = some a → l.chunk a = some c → inp.KeepsBytes c.length

/-- What is admitted is legal. -/
theorem filledLegal_of_keepsBytes {s : BufferState} {ls : BufferId → View} {i : BufferId}
    {e : Effect} {inp : Input} (hsplit : Split ls s.mem)
    (keeps : KeepsBytes s (.perform i inp)) : FilledLegal e inp (ls i) := by
  intro a c hdata hc
  have hlength : s.mem.length i = c.length := by
    rw [World.length, hsplit.dataBuf, hdata, Option.map_some, hsplit.chunk i a c hc,
      Option.getD_some]
  rw [← hlength]
  exact keeps

variable {b : Option (Nat × Chunk)} {tr : Trace}

/-- What `length()` can tell of a buffer without an empty chunk. -/
theorem lengthOf_range (filled : ∀ p ∈ b, p.2.Filled) :
    0 ≤ View.lengthOf b ∧ View.lengthOf b ≤ intMax := by
  cases b with
  | none => exact ⟨Int.le_refl 0, by decide⟩
  | some p => exact ⟨Int.le_of_lt (filled p rfl).pos, (filled p rfl).fits⟩

/-- A buffer that holds no empty chunk holds none after any call. -/
theorem wp_filled {mayHalt : Halt → Prop} (halts : ∀ h, mayHalt h) (c : Call)
    (filled : ∀ p ∈ b, p.2.Filled) (keeps : c.KeepsBytes (View.lengthOf b)) :
    wp (View.spec FilledLegal) mayHalt c.body
      (fun _ l ↦ ∃ b tr, l = .idle b tr ∧ ∀ p ∈ b, p.2.Filled) (.idle b tr) := by
  have written {values : List UInt8} {c : Chunk} (hres : Reserved values.length b c)
      (hkeeps : 0 < View.lengthOf b + values.length ∧
        View.lengthOf b + values.length ≤ intMax) :
      ((c.storeBehind values).grow values.length).Filled := by
    rw [← hres.length] at hkeeps
    exact .grow hkeeps.1 hkeeps.2
  cases c with
  | readFromFd fd =>
    refine wp_readFromFd (halts _) (halts _) ⟨b, tr, rfl, filled⟩ ?_ ?_ nofun
    · intro a c need _ hres hlegal
      have hfits := (lengthOf_range filled).2
      rw [← hres.length] at hfits
      exact ⟨_, tr, rfl, (Chunk.Filled.mk (hlegal a c rfl View.chunk_idle_some) hfits).some⟩
    · intro a c need values _ hres hlegal
      obtain ⟨hpos, hfits⟩ := hlegal a c rfl View.chunk_idle_some
      have hnonneg := (lengthOf_range filled).1
      rw [← hres.length] at hnonneg
      exact ⟨nofun, _, _, rfl, (Chunk.Filled.afterRead hnonneg hpos hfits).some⟩
  | adjust =>
    refine wp_adjust nofun ⟨_, tr, rfl, ?_⟩
    rintro _ hmem
    obtain ⟨p, hp, rfl⟩ := Option.map_eq_some_iff.mp hmem
    exact (filled p hp).adjust
  | write2buf values =>
    refine wp_write2buf (halts _) (Or.inl (halts _)) (fun _ ↦ ⟨b, tr, rfl, filled⟩)
      fun a c hres ↦ ?_
    exact ⟨_, tr, rfl, (written hres keeps).some⟩
  | write2fd fd =>
    refine wp_write2fd (Or.inl (halts _)) (fun _ ↦ ⟨b, tr, rfl, filled⟩) ?_
    rintro a c n rfl _ hlegal
    have hleft : n < c.length := hlegal a c rfl View.chunk_idle_some
    exact ⟨_, _, rfl, ((filled _ rfl).afterWrite hleft).some⟩
  | pop len =>
    refine wp_pop (halts _) (fun a c hb hle hne ↦ ?_) fun _ _ _ _ _ ↦ ⟨none, tr, rfl, nofun⟩
    subst hb
    have hfits : c.length - len ≤ intMax := keeps (filled _ rfl).pos
    have hpos : 0 < c.length - len := by
      by_contra hnot
      have hzero : c.length - len = 0 := by
        omega
      exact hne (congrArg int32 hzero)
    exact ⟨_, tr, rfl, (Chunk.Filled.pop hpos hfits).some⟩
  | clear => exact wp_clear ⟨none, tr, rfl, nofun⟩
  | addTask fd => exact wp_addTask ⟨b, _, rfl, filled⟩
  | send fd values =>
    refine wp_send (halts _) (Or.inl (halts _)) (fun _ ↦ ⟨b, tr, rfl, filled⟩) fun a c hres ↦ ?_
    exact ⟨_, _, rfl, (written hres keeps).some⟩
  | doWrite fd =>
    refine wp_doWrite (fun b _ ↦ ∀ p ∈ b, p.2.Filled) filled (Or.inl (halts _)) ?_
      (fun b tr hb ↦ ⟨b, _, rfl, hb⟩) fun tr ↦ ⟨none, tr, rfl, nofun⟩
    intro a c tr n hfilled _ _ hlegal
    have hleft : n < c.length := hlegal a c rfl View.chunk_idle_some
    exact ((hfilled _ rfl).afterWrite hleft).some

/-- The proof for all buffers. -/
def filledLogic : ObjectLogic buffers KeepsBytes View :=
  bufferLogic (fun _ ↦ FilledLegal) (fun _ _ ↦ True) (fun _ _ b _ ↦ ∀ p ∈ b, p.2.Filled)
    (fun hsplit _ hkeeps ↦ filledLegal_of_keepsBytes hsplit hkeeps)
    (by
      intro s ls i c b tr hsplit hl filled _ hkeeps
      refine wp_filled (fun _ ↦ trivial) c filled ?_
      rw [← hsplit.length_eq hl]
      exact hkeeps)

/-- In every run whose steps leave no empty chunk in a buffer, drained buffers pin no memory. -/
theorem drained_buffers_pin_nothing {block : Nat → Int → UInt8} {s : BufferState}
    (h : ReachBy buffers.step KeepsBytes (BufferState.init block) s) : PinsNothing s := by
  obtain ⟨ls, hls⟩ := filledLogic.holds_of_reachBy h
    (holds_init (Split.init block) fun _ ↦ ⟨none, ⟨[], [], []⟩, rfl, nofun⟩)
  have hheld (i : BufferId) (hi : s.thread i = .idle) (hdata : s.mem.dataBuf i ≠ none) :
      0 < s.mem.length i := by
    obtain ⟨b, tr, hl, hfilled⟩ := hls.idle hi
    rw [hls.coh.length_eq hl]
    rw [hls.coh.dataBuf, hl] at hdata
    cases b with
    | none => exact absurd rfl hdata
    | some p => exact (hfilled p rfl).pos
  refine ⟨hheld, fun hall a ha hnone ↦ ?_⟩
  have hsettled (i : BufferId) : ∃ b tr, ls i = .idle b tr := by
    obtain ⟨b, tr, hl, -⟩ := hls.idle (hall i)
    exact ⟨b, tr, hl⟩
  obtain ⟨place, hplace, -⟩ := Split.existsUnique_at hls.coh hsettled ha
  cases place with
  | freeList index position => exact ⟨index, position, hplace⟩
  | held i =>
    have hpos := hheld i (hall i) (by rw [show s.mem.dataBuf i = some a from hplace]; nofun)
    have hzero := hnone i hplace
    omega

/-- A connection whose `write` accepts one byte of two goes on to have a chunk with one byte. -/
theorem partial_write_pins_nothing :
    ∃ s, run buffers.step (BufferState.init fun _ _ ↦ 9) sendAndWrite = some s ∧
      PinsNothing s := by
  have hrun : (run buffers.step (BufferState.init fun _ _ ↦ 9) sendAndWrite).isSome := by
    decide +kernel
  obtain ⟨s, hs⟩ := Option.isSome_iff_exists.mp hrun
  exact ⟨s, hs, drained_buffers_pin_nothing (reachBy_of_run hs (by decide +kernel))⟩

/-- A connection sends one byte, and `write` accepts it. -/
def sendAndDrain : List BufferAction :=
  .flatten [
    [.start (.output 0) (.send 7 [1]), .perform (.output 0) .none, .perform (.output 0) .none,
      .perform (.output 0) (.alloc true fun _ ↦ 9)],
    .replicate 5 (.perform (.output 0) .none),
    [.finish (.output 0), .start (.output 0) (.doWrite 7), .loop (.output 0)],
    .replicate 5 (.perform (.output 0) .none),
    [.loop (.output 0), .perform (.output 0) (.write (.count 1))],
    .replicate 2 (.perform (.output 0) .none),
    [.loop (.output 0)],
    .replicate 5 (.perform (.output 0) .none),
    [.finish (.output 0)]]

/-- The chunk stays in the drained buffer. -/
theorem drained_buffer_keeps_chunk :
    ¬ ∀ (block : Nat → Int → UInt8) (s : BufferState),
      Reach buffers.step (BufferState.init block) s → PinsNothing s := by
  intro h
  have hrun : (run buffers.step (BufferState.init fun _ _ ↦ 9) sendAndDrain).isSome := by
    decide +kernel
  have hfacts : ∀ t ∈ run buffers.step (BufferState.init fun _ _ ↦ 9) sendAndDrain,
      (t.thread (.output 0)).isIdle = true ∧ t.mem.dataBuf (.output 0) ≠ none ∧
        t.mem.length (.output 0) = 0 := by
    decide +kernel
  obtain ⟨s, hs⟩ := Option.isSome_iff_exists.mp hrun
  obtain ⟨hidle, hdata, hzero⟩ := hfacts s hs
  have hpos := (h _ s (reach_of_run hs)).held (.output 0) (Thread.eq_idle hidle) hdata
  omega

end ConcurrentServer.Memory
