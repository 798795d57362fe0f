import ConcurrentServer.Memory.Accounting
import ConcurrentServer.Memory.Ownership

/-!
# The bytes of an output buffer

`src/memory/data_buf.cpp:104–153`, `src/net/tcp_conn.cpp:61–113`. What `write` has accepted from
an open connection followed by what its `tc_obuf` holds is what its successful `send` calls
have passed, in order; and no assertion of the buffer fails.
-/

namespace ConcurrentServer.Memory
open ConcurrentServer.Base

/-- The data of the sends that have returned `true`, in order. -/
def sent : CallLog → List UInt8
  | [] => []
  | ⟨.send _ values, true⟩ :: log => values ++ sent log
  | _ :: log => sent log

/-- Whether `do_close` has been called, or `do_write` has called it. -/
def closed (log : CallLog) : Bool :=
  log.any fun
    | ⟨.clear, _⟩ => true
    | ⟨.doWrite _, closes⟩ => closes
    | _ => false

/-- The use of the output buffer of connection `n` while it is open: `add_task`, `send` with
lengths that stay within `int`, `do_write` and `do_close`, where no `write` accepts more than it
was given. -/
def OutputUse (n : Nat) (s : BufferState) : BufferAction → Prop
  | .start i c => i = .output n → closed (s.log i) = false ∧
    match c with
    | .send _ values => (s.mem.bytes i).length + values.length ≤ intMax
    | .addTask _ | .doWrite _ | .clear => True
    | _ => False
  | .perform i (.write (.count k)) => i = .output n →
    match s.thread i with
    | .running _ (.op (.write _ values) _) => k ≤ values.length
    | _ => True
  | _ => True

instance (n : Nat) (s : BufferState) : DecidablePred (OutputUse n s)
  | .start i c =>
    match c with
    | .send _ values =>
      inferInstanceAs (Decidable (i = .output n → closed (s.log i) = false ∧
        ((s.mem.bytes i).length : Int) + values.length ≤ intMax))
    | .addTask _ | .doWrite _ | .clear =>
      inferInstanceAs (Decidable (i = .output n → closed (s.log i) = false ∧ True))
    | .readFromFd _ | .adjust | .write2buf _ | .write2fd _ | .pop _ =>
      inferInstanceAs (Decidable (i = .output n → closed (s.log i) = false ∧ False))
  | .perform i inp =>
    match inp with
    | .write (.count k) =>
      have : Decidable (match s.thread i with
          | .running _ (.op (.write _ values) _) => k ≤ values.length
          | _ => True) := by split <;> infer_instance
      inferInstanceAs (Decidable (i = .output n → _))
    | .write .eintr | .write .eagain | .write .error | .none | .alloc _ _ | .fionread _
    | .read _ => inferInstanceAs (Decidable True)
  | .loop _ | .finish _ => inferInstanceAs (Decidable True)

/-- A `write` accepts at most what it was given. -/
def WriteBounded : Effect → Input → Prop
  | .write _ values, .write (.count k) => k ≤ values.length
  | _, _ => True

/-- Only answers of `write` are bounded. -/
theorem writeBounded_of_count {e : Effect} {inp : Input}
    (h : ∀ fd values k, e = .write fd values → inp = .write (.count k) → k ≤ values.length) :
    WriteBounded e inp := by
  cases e with
  | write fd values =>
    cases inp with
    | write result =>
      cases result with
      | count k => exact h fd values k rfl rfl
      | _ => trivial
    | _ => trivial
  | _ => trivial

/-- A chunk of an output buffer between calls: its bytes start at the block and stay in it. -/
structure Chunk.Tidy (c : Chunk) : Prop where
  head : c.head = 0
  length : 0 ≤ c.length
  fits : c.length ≤ c.capacity
  capacity : c.capacity ≤ 4194304

/-- Between its calls an open output buffer holds what it should. -/
structure OutputHolds (log : CallLog) (b : Option (Nat × Chunk)) (tr : Trace) : Prop where
  tidy : ∀ p ∈ b, p.2.Tidy
  bytes : tr.accepted ++ View.content b = sent log

variable {log : CallLog} {b : Option (Nat × Chunk)} {tr : Trace}

theorem sent_append (log log' : CallLog) : sent (log ++ log') = sent log ++ sent log' := by
  induction log with
  | nil => rfl
  | cons e log ih =>
    obtain ⟨c, r⟩ := e
    cases c with
    | send fd values =>
      cases r with
      | true => rw [List.cons_append, sent, sent, ih, List.append_assoc]
      | false => exact ih
    | _ => exact ih

theorem closed_append (log log' : CallLog) :
    closed (log ++ log') = (closed log || closed log') := List.any_append

theorem Chunk.Tidy.sound {c : Chunk} (h : c.Tidy) : c.Sound :=
  ⟨Int.le_of_eq h.head.symm, h.length, by rw [h.head]; have := h.fits; have := h.capacity; omega,
    h.capacity⟩

theorem Chunk.Tidy.some {a : Nat} {c : Chunk} (h : c.Tidy) : ∀ p ∈ some (a, c), p.2.Tidy :=
  fun _ hp ↦ Option.some.inj hp ▸ h

/-- The length of what a buffer with a tidy chunk holds. -/
theorem Chunk.Tidy.length_bytes {c : Chunk} (h : c.Tidy) : (c.bytes.length : Int) = c.length := by
  rw [Chunk.bytes, length_window, Int.toNat_of_nonneg h.length]

theorem Chunk.Tidy.within {c : Chunk} (h : c.Tidy) : c.Within :=
  ⟨h.length, h.fits, h.capacity⟩

theorem Chunk.Within.tidy {c : Chunk} (h : c.Within) (head : c.head = 0) : c.Tidy :=
  ⟨head, h.length, h.fits, h.capacity⟩

/-- What is written behind reserved room is appended and leaves a tidy chunk. -/
theorem Reserved.append_tidy {values : List UInt8} {c : Chunk} (h : Reserved values.length b c)
    (tidy : ∀ p ∈ b, p.2.Tidy) (inRange : (View.content b).length + values.length ≤ intMax) :
    ((c.storeBehind values).grow values.length).Tidy ∧
      ((c.storeBehind values).grow values.length).bytes = View.content b ++ values := by
  obtain ⟨hwithin, hbytes⟩ := h.append (fun p hp ↦ (tidy p hp).within) fun hne ↦ by
    cases b with
    | none => exact absurd rfl hne
    | some p =>
      have hlen := (tidy p rfl).length_bytes
      change (p.2.bytes.length : Int) + values.length ≤ intMax at inRange
      change values.length + p.2.length ≤ intMax
      omega
  exact ⟨hwithin.tidy h.head, hbytes⟩

/-- Only what does not fit into the largest chunk behind the bytes held is refused. -/
theorem Refused.exceeds {need : Int} (h : Refused need b) (tidy : ∀ p ∈ b, p.2.Tidy)
    (nonneg : 0 ≤ need) (inRange : need + 4194304 ≤ intMax) :
    4194304 < (View.content b).length + need := by
  cases h with
  | fresh hclass =>
    have := PoolState.findClass_eq_none.mp hclass
    change 4194304 < ((0 : Nat) : Int) + need
    omega
  | @grown a c hclass =>
    obtain ⟨-, hlength, hfits, hcapacity⟩ : c.Tidy := tidy (a, c) rfl
    have hmax : intMax = 2147483647 := rfl
    have hsum : int32 (need + c.length) = need + c.length :=
      int32_of_range (by omega) (by omega)
    rw [hsum] at hclass
    have hbeyond := PoolState.findClass_eq_none.mp hclass
    have hheld : (c.bytes.length : Int) = c.length := (tidy (a, c) rfl).length_bytes
    change 4194304 < (c.bytes.length : Int) + need
    omega

/-- What `write` has accepted leaves the chunk, and the rest moves to its start. -/
theorem Chunk.Tidy.afterWrite {c : Chunk} (h : c.Tidy) {n : Nat} (le : n ≤ c.bytes.length) :
    (c.afterWrite n).Tidy ∧ c.bytes.take n ++ (c.afterWrite n).bytes = c.bytes := by
  obtain ⟨hhead, hlength, hfits, hcapacity⟩ := h
  rw [Chunk.bytes, length_window] at le
  have hn : int32 n = n := int32_of_range (by omega) (by omega)
  rw [Chunk.afterWrite, hn]
  split
  · have hrest : int32 (c.length - n) = c.length - n := int32_of_range (by omega) (by omega)
    have hoff : int32 (c.head + n) = c.head + n := int32_of_range (by omega) (by omega)
    have hpop : (c.pop n).bytes = c.bytes.drop (n : Int).toNat :=
      Chunk.bytes_pop (by omega) hrest hoff
    have hlen : (c.pop n).length = c.length - n := hrest
    refine ⟨⟨Chunk.head_adjust _, ?_, ?_, ?_⟩, ?_⟩
    · rw [Chunk.length_adjust, hlen]
      omega
    · rw [Chunk.length_adjust, Chunk.capacity_adjust, Chunk.capacity_pop, hlen]
      omega
    · rw [Chunk.capacity_adjust, Chunk.capacity_pop]
      exact hcapacity
    · rw [Chunk.bytes_adjust (by omega), hpop, Int.toNat_natCast, List.take_append_drop]
  · next hpos =>
    obtain rfl : n = 0 := by omega
    exact ⟨⟨hhead, hlength, hfits, hcapacity⟩, rfl⟩

/-! ### Calls -/

/-- An open output buffer that holds what it should does so after every call or is closed, and
ends the process only where `alloc_chunk` exits. -/
theorem wp_output {c : Call} {legal : Effect → Input → View → Prop} {mayHalt : Halt → Prop}
    (exits : mayHalt .exit)
    (bounded : ∀ e inp l, legal e inp l → WriteBounded e inp)
    (h : OutputHolds log b tr)
    (inRange : ∀ fd values, c = .send fd values →
      (View.content b).length + values.length ≤ intMax)
    (used : (∃ fd, c = .addTask fd) ∨ (∃ fd values, c = .send fd values) ∨
      (∃ fd, c = .doWrite fd) ∨ c = .clear) :
    wp (View.spec legal) mayHalt c.body
      (fun r l ↦ ∃ b tr, l = .idle b tr ∧
        (closed (log ++ [⟨c, r⟩]) = false → OutputHolds (log ++ [⟨c, r⟩]) b tr))
      (.idle b tr) := by
  obtain ⟨htidy, hbytes⟩ := h
  rcases used with ⟨fd, rfl⟩ | ⟨fd, values, rfl⟩ | ⟨fd, rfl⟩ | rfl
  · refine wp_addTask ⟨b, _, rfl, fun _ ↦ ⟨htidy, ?_⟩⟩
    rw [sent_append, ← hbytes]
    exact (List.append_nil _).symm
  · refine wp_send exits (Or.inr fun a c hb ↦ (htidy (a, c) hb).head)
      (fun _ ↦ ⟨b, tr, rfl, fun _ ↦ ⟨htidy, ?_⟩⟩) fun a c hres ↦ ?_
    · rw [sent_append, hbytes]
      exact (List.append_nil _).symm
    · obtain ⟨htidy', hbytes'⟩ := hres.append_tidy htidy (inRange fd values rfl)
      refine ⟨some (a, (c.storeBehind values).grow values.length), _, rfl,
        fun _ ↦ ⟨htidy'.some, ?_⟩⟩
      rw [sent_append, ← hbytes, List.append_assoc, Trace.accepted_afterSend]
      change tr.accepted ++ _ = tr.accepted ++ (_ ++ (values ++ []))
      rw [List.append_nil, ← hbytes']
      rfl
  · refine wp_doWrite (fun b tr ↦ (∀ p ∈ b, p.2.Tidy) ∧ tr.accepted ++ View.content b = sent log)
      ⟨htidy, hbytes⟩ (Or.inr fun a c tr hI ↦ (hI.1 _ rfl).head) ?_ ?_ ?_
    · rintro a c tr n ⟨hc, hsum⟩ - - hlegal
      obtain ⟨hc', hrest⟩ := (hc _ rfl).afterWrite (bounded _ _ _ hlegal)
      refine ⟨hc'.some, ?_⟩
      rw [← hsum]
      change tr.accepted ++ _ ++ _ = _
      rw [List.append_assoc]
      exact congrArg (tr.accepted ++ ·) hrest
    · rintro b tr ⟨hb, hsum⟩
      refine ⟨b, _, rfl, fun _ ↦ ⟨hb, ?_⟩⟩
      rw [sent_append, Trace.accepted_afterDoWrite, hsum]
      exact (List.append_nil _).symm
    · intro tr
      refine ⟨none, tr, rfl, fun hopen ↦ ?_⟩
      rw [closed_append] at hopen
      simp [closed] at hopen
  · refine wp_clear ⟨none, tr, rfl, fun hopen ↦ ?_⟩
    rw [closed_append] at hopen
    simp [closed] at hopen

/-- The proof for the output buffer of connection `n`; of the others nothing is asked. -/
def outputLogic (n : Nat) : ObjectLogic buffers (OutputUse n) View :=
  bufferLogic (fun i e inp _ ↦ i = .output n → WriteBounded e inp)
    (fun i h ↦ i = .output n → h = .exit)
    (fun i log b tr ↦ i = .output n → closed log = false → OutputHolds log b tr)
    (by
      rintro s ls i c e k inp - hth hadmits rfl
      refine writeBounded_of_count fun fd values count he hinp ↦ ?_
      subst he hinp
      have hbound := hadmits rfl
      rwa [hth] at hbound)
    (by
      intro s ls i c b tr hsplit hl hinv hoffers hadmits
      by_cases hi : i = .output n
      · subst hi
        obtain ⟨hopen, hcall⟩ := hadmits rfl
        refine wp_mono (wp_output (fun _ ↦ rfl) (fun e inp l h ↦ h rfl) (hinv rfl hopen) ?_ ?_)
          fun r l ⟨b, tr, hl, hholds⟩ ↦ ⟨b, tr, hl, fun _ ↦ hholds⟩
        · rintro fd values rfl
          rwa [← hsplit.bytes_eq hl]
        · cases c with
          | addTask fd => exact Or.inl ⟨fd, rfl⟩
          | send fd values => exact Or.inr (Or.inl ⟨fd, values, rfl⟩)
          | doWrite fd => exact Or.inr (Or.inr (Or.inl ⟨fd, rfl⟩))
          | clear => exact Or.inr (Or.inr (Or.inr rfl))
          | _ => exact hcall.elim
      · refine wp_mono (wp_body (fun _ h ↦ absurd h hi) c b tr) ?_
        rintro r l ⟨b, tr, hl⟩
        exact ⟨b, tr, hl, fun h ↦ absurd h hi⟩)

/-- Started with an empty buffer, in every run that uses it so, whenever the output buffer of an
open connection is in no call the bytes accepted by `write` followed by the bytes it holds are
the data of the sends that have returned `true`, in order; and none of its assertions ends the
process. -/
theorem output_stream_integrity {s₀ s : BufferState} {n : Nat}
    (h : ReachBy buffers.step (OutputUse n) s₀ s) (settled : Settled s₀)
    (empty : s₀.mem.dataBuf (.output n) = none) (unused : s₀.log (.output n) = [])
    (unwritten : (s₀.mem.trace (.output n)).accepted = []) :
    (s.thread (.output n) = .idle → closed (s.log (.output n)) = false →
      (s.mem.trace (.output n)).accepted ++ s.mem.bytes (.output n) = sent (s.log (.output n))) ∧
    s.halted ≠ some (.output n, .assertion) := by
  obtain ⟨ls₀, hsplit₀, hidle₀⟩ := settled.split
  have start : (outputLogic n).Holds s₀ ls₀ := by
    refine ⟨hsplit₀, fun i ↦ ?_, fun i h hhalt ↦ ?_⟩
    · rw [settled.thread i]
      obtain ⟨b, tr, hi⟩ := hidle₀ i
      refine ⟨b, tr, hi, ?_⟩
      rintro rfl -
      rw [unused]
      obtain rfl := hsplit₀.eq_none hi empty
      rw [hsplit₀.trace_eq hi] at unwritten
      exact ⟨nofun, by rw [unwritten]; rfl⟩
    · rw [settled.halted] at hhalt
      cases hhalt
  obtain ⟨ls, hls⟩ := (outputLogic n).holds_of_reachBy h ⟨ls₀, start⟩
  refine ⟨fun idle hopen ↦ ?_, fun hhalt ↦ nomatch hls.halted _ _ hhalt rfl⟩
  obtain ⟨b, tr, hl, hholds⟩ := hls.idle idle
  have hbytes := (hholds rfl hopen).bytes
  rwa [Split.bytes_eq hls.coh hl, Split.trace_eq hls.coh hl]

/-- What `sendAndWrite` leaves is accounted for. -/
theorem output_stream_after_write :
    ∃ s, run buffers.step (BufferState.init fun _ _ ↦ 9) sendAndWrite = some s ∧
      (s.mem.trace (.output 0)).accepted ++ s.mem.bytes (.output 0) = sent (s.log (.output 0)) := by
  have hrun : (run buffers.step (BufferState.init fun _ _ ↦ 9) sendAndWrite).isSome := by
    decide +kernel
  have hfacts : ∀ t ∈ run buffers.step (BufferState.init fun _ _ ↦ 9) sendAndWrite,
      (t.thread (.output 0)).isIdle = true ∧ closed (t.log (.output 0)) = false := by
    decide +kernel
  obtain ⟨s, hs⟩ := Option.isSome_iff_exists.mp hrun
  obtain ⟨hidle, hopen⟩ := hfacts s hs
  have hreach : ReachBy buffers.step (OutputUse 0) (BufferState.init fun _ _ ↦ 9) s :=
    reachBy_of_run hs (by decide +kernel)
  exact ⟨s, hs, (output_stream_integrity hreach (settled_init _) rfl rfl rfl).1
    (Thread.eq_idle hidle) hopen⟩

end ConcurrentServer.Memory
