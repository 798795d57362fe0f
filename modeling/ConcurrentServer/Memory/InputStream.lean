import ConcurrentServer.Memory.Ownership

/-!
# The bytes of an input buffer

`src/memory/data_buf.cpp:18–101`. An input buffer holds, in order, the bytes received since the
last `clear` without those that `pop` has removed, whatever chunks it has gone through and
whatever was left in them.
-/

namespace ConcurrentServer.Memory
open ConcurrentServer.Base

/-- How many of the bytes that were delivered to a buffer its calls have told of, and how many of
these have left it. -/
structure Counts where
  told : Nat
  gone : Nat

/-- `read_from_fd` tells how many bytes came, −1 standing for none; `pop` takes from the front, and
`clear` takes all there are. -/
def Counts.after (k : Counts) : ((c : Call) × c.Ret) → Counts
  | ⟨.readFromFd _, r⟩ => { k with told := k.told + Int.toNat r }
  | ⟨.pop len, _⟩ => { k with gone := k.gone + len.toNat }
  | ⟨.clear, _⟩ => { k with gone := k.told }
  | _ => k

/-- What the calls of a buffer have told and taken. -/
def counts (log : CallLog) : Counts := log.foldl Counts.after ⟨0, 0⟩

/-- Of the bytes that `read` has delivered, those since the last `clear` minus those that were
popped. -/
def received (log : CallLog) (delivered : List (List UInt8)) : List UInt8 :=
  delivered.flatten.drop (counts log).gone

/-- An input buffer holds what it has received, and what `read` has delivered is what its calls have
told of. -/
structure InputIntact (s : BufferState) (n : Nat) : Prop where
  bytes : s.mem.bytes (.input n) =
    received (s.log (.input n)) (s.mem.trace (.input n)).delivered
  told : (counts (s.log (.input n))).told = (s.mem.trace (.input n)).delivered.flatten.length
  returned : ∀ (fd r : Int), ⟨.readFromFd fd, r⟩ ∈ s.log (.input n) → -1 ≤ r

/-- The use of `InputBuffer` `n`: `pop` takes at most `length()` bytes, and no `read` returns more
than fits into the rest of the chunk. -/
def InputUse (n : Nat) (s : BufferState) : BufferAction → Prop
  | .start i (.pop len) => i = .input n → 0 ≤ len ∧ len ≤ (s.mem.bytes i).length
  | .perform i (.read (.bytes values)) => i = .input n → ∀ a ∈ s.mem.dataBuf i,
      values.length ≤ (s.mem.pool.chunks a).capacity - (s.mem.pool.chunks a).length
  | _ => True

instance (n : Nat) (s : BufferState) : DecidablePred (InputUse n s)
  | .start i c =>
    match c with
    | .pop len =>
      inferInstanceAs (Decidable (i = .input n → 0 ≤ len ∧ len ≤ (s.mem.bytes i).length))
    | .readFromFd _ | .adjust | .write2buf _ | .write2fd _ | .clear | .addTask _ | .send _ _
    | .doWrite _ =>
      inferInstanceAs (Decidable True)
  | .perform i inp =>
    match inp with
    | .read (.bytes values) =>
      inferInstanceAs (Decidable (i = .input n → ∀ a ∈ s.mem.dataBuf i,
        (values.length : Int) ≤ (s.mem.pool.chunks a).capacity - (s.mem.pool.chunks a).length))
    | .read .eintr | .read .error | .none | .alloc _ _ | .fionread _ | .write _ =>
      inferInstanceAs (Decidable True)
  | .loop _ | .finish _ => inferInstanceAs (Decidable True)

/-- A `read` into the chunk in `data_buf` stays inside it. -/
def ReadFits (_ : Effect) (inp : Input) (l : View) : Prop :=
  ∀ values, inp = .read (.bytes values) → ∀ a c, l.dataBuf = some a → l.chunk a = some c →
    values.length ≤ c.capacity - c.length

/-- Between its calls an input buffer holds what it should. -/
structure InputHolds (log : CallLog) (b : Option (Nat × Chunk)) (tr : Trace) : Prop where
  sound : ∀ p ∈ b, p.2.Sound
  bytes : View.content b = received log tr.delivered
  told : (counts log).told = tr.delivered.flatten.length
  gone : (counts log).gone ≤ (counts log).told
  returned : ∀ (fd r : Int), ⟨.readFromFd fd, r⟩ ∈ log → -1 ≤ r

variable {log : CallLog} {b b' : Option (Nat × Chunk)} {tr : Trace}

theorem counts_append (log : CallLog) (e : (c : Call) × c.Ret) :
    counts (log ++ [e]) = (counts log).after e := by
  rw [counts, List.foldl_append]
  rfl

/-- A call that takes bytes or none, and reads none. -/
theorem InputHolds.take {c : Call} {r : c.Ret} (h : InputHolds log b tr)
    (sound : ∀ p ∈ b', p.2.Sound) (hc : ∀ fd, c ≠ .readFromFd fd)
    (bytes : View.content b' = (View.content b).drop
      (((counts log).after ⟨c, r⟩).gone - (counts log).gone))
    (told : ((counts log).after ⟨c, r⟩).told = (counts log).told)
    (le : (counts log).gone ≤ ((counts log).after ⟨c, r⟩).gone)
    (gone : ((counts log).after ⟨c, r⟩).gone ≤ (counts log).told) :
    InputHolds (log ++ [⟨c, r⟩]) b' tr where
  sound := sound
  bytes := by
    rw [bytes, h.bytes, received, received, counts_append, List.drop_drop]
    congr 1
    omega
  told := by rw [counts_append, told, h.told]
  gone := by rwa [counts_append, told]
  returned fd r hmem := by
    rcases List.mem_append.mp hmem with hmem | hmem
    · exact h.returned fd r hmem
    · cases List.mem_singleton.mp hmem
      exact absurd rfl (hc fd)

/-- A `read_from_fd` appends what it has received, and tells how much. -/
theorem InputHolds.read {fd r : Int} {values : List (List UInt8)} (h : InputHolds log b tr)
    (sound : ∀ p ∈ b', p.2.Sound) (bytes : View.content b' = View.content b ++ values.flatten)
    (told : r.toNat = values.flatten.length) (returned : -1 ≤ r) :
    InputHolds (log ++ [⟨.readFromFd fd, r⟩]) b'
      { tr with delivered := tr.delivered ++ values } := by
  have hcounts : counts (log ++ [⟨.readFromFd fd, r⟩]) =
      ⟨(counts log).told + r.toNat, (counts log).gone⟩ := counts_append log _
  have hgone := h.gone
  refine ⟨sound, ?_, ?_, ?_, fun fd' r' hmem ↦ ?_⟩
  · rw [bytes, h.bytes, received, received, hcounts, List.flatten_append,
      List.drop_append_of_le_length (by rw [← h.told]; exact hgone)]
  · rw [hcounts, List.flatten_append, List.length_append, ← h.told, told]
  · rw [hcounts]
    exact hgone.trans (Nat.le_add_right _ _)
  · rcases List.mem_append.mp hmem with hmem | hmem
    · exact h.returned fd' r' hmem
    · cases List.mem_singleton.mp hmem
      exact returned

/-- Bytes that fit are appended. -/
theorem Chunk.Sound.afterRead {c : Chunk} (h : c.Sound) (hhead : c.head = 0)
    {values : List UInt8} (fits : values.length ≤ c.capacity - c.length) :
    (c.afterRead values).Sound ∧ (c.afterRead values).bytes = c.bytes ++ values ∧
      int32 values.length = values.length := by
  have hlength := h.length
  have hcapacity := h.capacity
  have hvalues : int32 values.length = values.length :=
    int32_of_range (by omega) (by omega)
  have hsum : int32 (c.length + values.length) = c.length + values.length :=
    int32_of_range (by omega) (by omega)
  rw [Chunk.afterRead, hvalues]
  split
  · refine ⟨⟨?_, ?_, ?_, ?_⟩, Chunk.bytes_append hhead hlength hsum, rfl⟩
    · exact h.head
    · change 0 ≤ int32 (c.length + values.length)
      omega
    · change c.head + int32 (c.length + values.length) ≤ 4194304
      omega
    · exact hcapacity
  · next hpos =>
    obtain rfl : values = [] := List.eq_nil_of_length_eq_zero (by omega)
    refine ⟨⟨h.head, hlength, h.used, hcapacity⟩, ?_, rfl⟩
    rw [List.append_nil]
    exact window_storeAt_before (by change c.head + c.length ≤ c.length; omega)

/-- Popping at most what there is drops it in front. -/
theorem Chunk.Sound.pop {c : Chunk} (h : c.Sound) {len : Int} (nonneg : 0 ≤ len)
    (le : len ≤ c.length) :
    (c.pop len).Sound ∧ (c.pop len).bytes = c.bytes.drop len.toNat := by
  obtain ⟨hhead, hlength, hused, hcapacity⟩ := h
  have hrest : int32 (c.length - len) = c.length - len := int32_of_range (by omega) (by omega)
  have hoff : int32 (c.head + len) = c.head + len := int32_of_range (by omega) (by omega)
  refine ⟨⟨?_, ?_, ?_, hcapacity⟩, Chunk.bytes_pop nonneg hrest hoff⟩
  · change 0 ≤ int32 (c.head + len)
    omega
  · change 0 ≤ int32 (c.length - len)
    omega
  · change int32 (c.head + len) + int32 (c.length - len) ≤ 4194304
    omega

/-! ### Calls -/

/-- An input buffer that holds what it should does so after every call. -/
theorem wp_input {n : Nat} {c : Call} {legal : Effect → Input → View → Prop}
    (fits : ∀ e inp l, legal e inp l → ReadFits e inp l) (h : InputHolds log b tr)
    (hoffers : (BufferId.input n).offers c = true)
    (popped : ∀ len, c = .pop len → 0 ≤ len ∧ len ≤ (View.content b).length) :
    wp (View.spec legal) (fun _ ↦ True) c.body
      (fun r l ↦ ∃ b tr, l = .idle b tr ∧ InputHolds (log ++ [⟨c, r⟩]) b tr) (.idle b tr) := by
  have hsound := h.sound
  cases c with
  | readFromFd fd =>
    have failed {b' : Option (Nat × Chunk)} (hsound' : ∀ p ∈ b', p.2.Sound)
        (same : View.content b' = View.content b) :
        InputHolds (log ++ [⟨.readFromFd fd, (-1 : Int)⟩]) b' tr := by
      have hread : InputHolds (log ++ [⟨.readFromFd fd, (-1 : Int)⟩]) b'
          { tr with delivered := tr.delivered ++ [] } :=
        h.read hsound' (by rw [same]; exact (List.append_nil _).symm) rfl (Int.le_refl _)
      rwa [List.append_nil] at hread
    refine wp_readFromFd trivial trivial ⟨b, tr, rfl, failed hsound rfl⟩ ?_ ?_ nofun
    · intro a c need _ hres _
      obtain ⟨hc, same⟩ := hres.sound hsound
      exact ⟨some (a, c), tr, rfl, failed hc.some same⟩
    · intro a c need values _ hres hfits
      obtain ⟨hc, same⟩ := hres.sound hsound
      obtain ⟨hsound', hbytes', hvalues⟩ :=
        hc.afterRead hres.head (fits _ _ _ hfits values rfl a c rfl View.chunk_idle_some)
      rw [hvalues]
      refine ⟨nofun, some (a, c.afterRead values), _, rfl, h.read hsound'.some ?_ ?_ ?_⟩
      · rw [← same]
        exact hbytes'.trans (congrArg (c.bytes ++ ·) List.flatten_singleton.symm)
      · rw [Int.toNat_natCast]
        exact congrArg List.length List.flatten_singleton.symm
      · omega
  | adjust =>
    refine wp_adjust nofun ⟨_, tr, rfl, h.take ?_ nofun ?_ rfl (Nat.le_refl _) h.gone⟩
    · rintro _ hmem
      obtain ⟨p, hp, rfl⟩ := Option.map_eq_some_iff.mp hmem
      obtain ⟨hhead, hlength, hused, hcapacity⟩ := hsound p hp
      refine ⟨?_, ?_, ?_, ?_⟩
      · simp
      · simpa using hlength
      · simp only [Chunk.head_adjust, Chunk.length_adjust]
        omega
      · simpa using hcapacity
    · change _ = (View.content b).drop ((counts log).gone - (counts log).gone)
      rw [Nat.sub_self, List.drop_zero]
      cases b with
      | none => rfl
      | some p => exact Chunk.bytes_adjust (hsound p rfl).length
  | pop len =>
    obtain ⟨nonneg, le⟩ := popped len rfl
    have hlength : (View.content b).length = (counts log).told - (counts log).gone := by
      rw [h.bytes, received, List.length_drop, h.told]
    have took {b' : Option (Nat × Chunk)} (hsound' : ∀ p ∈ b', p.2.Sound)
        (hbytes : View.content b' = (View.content b).drop len.toNat) :
        InputHolds (log ++ [⟨.pop len, ()⟩]) b' tr := by
      refine h.take hsound' nofun ?_ rfl (Nat.le_add_right _ _) ?_
      · change _ = (View.content b).drop ((counts log).gone + len.toNat - (counts log).gone)
        rw [hbytes, Nat.add_sub_cancel_left]
      · change (counts log).gone + len.toNat ≤ (counts log).told
        have hgone := h.gone
        omega
    refine wp_pop trivial (fun a c hb hle _ ↦ ?_) fun a c hb hle hzero ↦ ?_
    · obtain ⟨hsound', hbytes'⟩ := (hsound (a, c) hb).pop nonneg hle
      exact ⟨some (a, c.pop len), tr, rfl, took hsound'.some (by rw [hb]; exact hbytes')⟩
    · obtain ⟨-, hbytes'⟩ := (hsound (a, c) hb).pop nonneg hle
      rw [Chunk.bytes_of_length_zero hzero] at hbytes'
      exact ⟨none, tr, rfl, took nofun (by rw [hb]; exact hbytes')⟩
  | clear =>
    refine wp_clear ⟨none, tr, rfl, h.take nofun nofun ?_ rfl h.gone (Nat.le_refl _)⟩
    change [] = (View.content b).drop ((counts log).told - (counts log).gone)
    rw [h.bytes, received, List.drop_drop, Nat.add_sub_cancel' h.gone, h.told, List.drop_length]
  | _ => cases hoffers

/-- No effect takes back what `read` has delivered. -/
theorem World.delivered_exec {i : BufferId} {e : Effect} {inp : Input} {w w' : World} {r : e.Result}
    (hexec : w.exec i e inp = some (.value r w')) (j : BufferId) :
    (w.trace j).delivered <+: (w'.trace j).delivered := by
  have recorded {f : Trace → Trace} (hf : (w.trace i).delivered <+: (f (w.trace i)).delivered) :
      (w.trace j).delivered <+: ((w.record i f).trace j).delivered := by
    by_cases hj : j = i
    · simpa [World.record, hj] using hf
    · simp [World.record, hj]
  cases e with
  | allocChunk n =>
    cases inp with
    | alloc newOk block =>
      simp only [World.exec] at hexec
      split at hexec
      · obtain ⟨-, rfl⟩ := Outcome.value.inj (Option.some.inj hexec)
        exact List.prefix_refl _
      · cases hexec
    | _ => cases hexec
  | retrieve a =>
    simp only [World.exec] at hexec
    split at hexec
    · obtain ⟨-, rfl⟩ := Outcome.value.inj (Option.some.inj hexec)
      exact List.prefix_refl _
    · cases hexec
  | assert b =>
    cases b with
    | false => cases hexec
    | true =>
      obtain ⟨-, rfl⟩ := Outcome.value.inj (Option.some.inj hexec)
      exact List.prefix_refl _
  | fionread fd =>
    cases inp with
    | fionread result =>
      obtain ⟨-, rfl⟩ := Outcome.value.inj (Option.some.inj hexec)
      exact List.prefix_refl _
    | _ => cases hexec
  | read fd m =>
    cases inp with
    | read result =>
      obtain ⟨-, rfl⟩ := Outcome.value.inj (Option.some.inj hexec)
      exact recorded (List.prefix_append _ _)
    | _ => cases hexec
  | write fd values =>
    cases inp with
    | write result =>
      obtain ⟨-, rfl⟩ := Outcome.value.inj (Option.some.inj hexec)
      exact recorded (List.prefix_refl _)
    | _ => cases hexec
  | addToPoller fd event cb =>
    obtain ⟨-, rfl⟩ := Outcome.value.inj (Option.some.inj hexec)
    exact recorded (List.prefix_refl _)
  | delFromPoller fd event =>
    obtain ⟨-, rfl⟩ := Outcome.value.inj (Option.some.inj hexec)
    exact recorded (List.prefix_refl _)
  | _ =>
    obtain ⟨-, rfl⟩ := Outcome.value.inj (Option.some.inj hexec)
    exact List.prefix_refl _

/-- What `read` has delivered stays delivered. -/
theorem delivered_prefix {ok : BufferState → BufferAction → Prop} {s₀ s : BufferState}
    (h : ReachBy buffers.step ok s₀ s) (i : BufferId) :
    (s₀.mem.trace i).delivered <+: (s.mem.trace i).delivered := by
  refine h.invariant (P := fun s ↦ (s₀.mem.trace i).delivered <+: (s.mem.trace i).delivered)
    (List.prefix_refl _) fun s a t hs _ hstep ↦ ?_
  rcases ObjectSystem.mem_of_step hstep with hmem | ⟨j, e, inp, r, hexec⟩
  · rwa [hmem]
  · exact hs.trans (World.delivered_exec hexec i)

/-- The proof for buffer `n`; of the others nothing is asked. -/
def inputLogic (n : Nat) : ObjectLogic buffers (InputUse n) View :=
  bufferLogic (fun i e inp l ↦ i = .input n → ReadFits e inp l) (fun _ _ ↦ True)
    (fun i log b tr ↦ i = .input n → InputHolds log b tr)
    (by
      rintro s ls i c e k inp hsplit - hadmits rfl values rfl a c' hdata hc'
      have hfits := hadmits rfl a ((hsplit.dataBuf _).trans hdata)
      rwa [hsplit.chunk _ a c' hc'] at hfits)
    (by
      intro s ls i c b tr hsplit hl hinv hoffers hadmits
      by_cases hi : i = .input n
      · subst hi
        refine wp_mono (wp_input (fun e inp l h ↦ h rfl) (hinv rfl) hoffers ?_) ?_
        · rintro len rfl
          rw [← hsplit.bytes_eq hl]
          exact hadmits rfl
        · rintro r l ⟨b, tr, hl, hholds⟩
          exact ⟨b, tr, hl, fun _ ↦ hholds⟩
      · refine wp_mono (wp_body (fun _ ↦ trivial) c b tr) ?_
        rintro r l ⟨b, tr, hl⟩
        exact ⟨b, tr, hl, fun h ↦ absurd h hi⟩)

/-- Started with an empty buffer, in every run that uses it so, the `length()` bytes of an input
buffer are between its calls exactly the bytes that `read` has delivered since the last `clear`
without those that `pop` has removed; and a `read_from_fd` that returns −1 or 0 leaves them. -/
theorem input_stream_integrity {s₀ s : BufferState} {n : Nat}
    (h : ReachBy buffers.step (InputUse n) s₀ s) (settled : Settled s₀)
    (empty : s₀.mem.dataBuf (.input n) = none) (unused : s₀.log (.input n) = [])
    (undelivered : (s₀.mem.trace (.input n)).delivered = [])
    (idle : s.thread (.input n) = .idle) :
    InputIntact s n ∧ ∀ s' (fd r : Int), ReachBy buffers.step (InputUse n) s s' →
      s'.thread (.input n) = .idle →
      s'.log (.input n) = s.log (.input n) ++ [⟨.readFromFd fd, r⟩] → r ≤ 0 →
        s'.mem.bytes (.input n) = s.mem.bytes (.input n) := by
  obtain ⟨ls₀, hsplit₀, hidle₀⟩ := settled.split
  have start : (inputLogic n).Holds s₀ ls₀ := by
    refine ⟨hsplit₀, fun i ↦ ?_, fun _ _ _ ↦ trivial⟩
    rw [settled.thread i]
    obtain ⟨b, tr, hi⟩ := hidle₀ i
    refine ⟨b, tr, hi, ?_⟩
    rintro rfl
    rw [unused]
    obtain rfl := hsplit₀.eq_none hi empty
    rw [hsplit₀.trace_eq hi] at undelivered
    exact ⟨nofun, by rw [undelivered]; rfl, by rw [undelivered]; rfl, Nat.le_refl _, nofun⟩
  have intact {s : BufferState} (h : ReachBy buffers.step (InputUse n) s₀ s)
      (idle : s.thread (.input n) = .idle) : InputIntact s n := by
    obtain ⟨ls, hls⟩ := (inputLogic n).holds_of_reachBy h ⟨ls₀, start⟩
    obtain ⟨b, tr, hl, hholds⟩ := hls.idle idle
    obtain ⟨-, hbytes, htold, -, hreturned⟩ := hholds rfl
    have htrace := Split.trace_eq hls.coh hl
    refine ⟨?_, ?_, hreturned⟩
    · rw [htrace]
      exact (Split.bytes_eq hls.coh hl).trans hbytes
    · rw [htrace]
      exact htold
  have hs := intact h idle
  refine ⟨hs, fun s' fd r h' idle' hlog hr ↦ ?_⟩
  have hs' := intact (h.trans h') idle'
  have hcounts : counts (s'.log (.input n)) = counts (s.log (.input n)) := by
    rw [hlog, counts_append]
    change Counts.mk _ _ = _
    rw [Int.toNat_of_nonpos hr]
    rfl
  have hnew : (s'.mem.trace (.input n)).delivered.flatten =
      (s.mem.trace (.input n)).delivered.flatten := by
    obtain ⟨new, hnew⟩ := delivered_prefix h' (.input n)
    have hlength := hs.told
    rw [← hcounts, hs'.told, ← hnew, List.flatten_append, List.length_append] at hlength
    have hnone : new.flatten = [] := List.eq_nil_of_length_eq_zero (by omega)
    rw [← hnew, List.flatten_append, hnone, List.append_nil]
  rw [hs'.bytes, hs.bytes, received, received, hcounts, hnew]

/-- An input buffer receives three bytes and gives up one. -/
def readAndPop : List BufferAction :=
  .flatten [
    [.start (.input 0) (.readFromFd 7), .perform (.input 0) (.fionread (some 3)),
      .perform (.input 0) .none, .perform (.input 0) (.alloc true fun _ ↦ 9)],
    .replicate 2 (.perform (.input 0) .none),
    [.loop (.input 0), .perform (.input 0) (.read (.bytes [1, 2, 3]))],
    .replicate 3 (.perform (.input 0) .none),
    [.finish (.input 0), .start (.input 0) (.pop 1)],
    .replicate 5 (.perform (.input 0) .none),
    [.finish (.input 0)]]

/-- What the buffer then holds is accounted for. -/
theorem input_stream_after_pop :
    ∃ s, run buffers.step (BufferState.init fun _ _ ↦ 9) readAndPop = some s ∧
      InputIntact s 0 := by
  have hrun : (run buffers.step (BufferState.init fun _ _ ↦ 9) readAndPop).isSome := by
    decide +kernel
  have hidle : ∀ t ∈ run buffers.step (BufferState.init fun _ _ ↦ 9) readAndPop,
      (t.thread (.input 0)).isIdle = true := by
    decide +kernel
  obtain ⟨s, hs⟩ := Option.isSome_iff_exists.mp hrun
  have hreach : ReachBy buffers.step (InputUse 0) (BufferState.init fun _ _ ↦ 9) s :=
    reachBy_of_run hs (by decide +kernel)
  exact ⟨s, hs, (input_stream_integrity hreach (settled_init _) rfl rfl rfl
    (Thread.eq_idle (hidle s hs))).1⟩

end ConcurrentServer.Memory
