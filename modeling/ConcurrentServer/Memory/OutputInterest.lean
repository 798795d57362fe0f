import ConcurrentServer.Memory.OutputStream

/-!
# The interest in writing

`src/net/tcp_conn.cpp:26–97`, `src/net/epoll.cpp:20–84`. While an open connection has output, the
epoller of its loop watches its descriptor for `EPOLLOUT` and has a write callback, whatever the
other descriptors of the loop are used for in between.
-/

namespace ConcurrentServer.Memory
open ConcurrentServer.Base ConcurrentServer.Net

/-! ### The entry of a descriptor -/

/-- The calls that a connection makes of the epoller. -/
def IsConnCall (fd : Int) (c : EpollCall PollCallback) : Prop :=
  c = .add fd EPOLLIN (some .doRead) true ∨ c = .add fd EPOLLOUT (some .doWrite) true ∨
    c = .delEvent fd EPOLLOUT true

/-- Whether reading and writing are watched for after a call. -/
def watchedAfter (io : Bool × Bool) : EpollCall PollCallback → Bool × Bool
  | .add _ event _ _ => (io.1 || event = EPOLLIN, io.2 || event = EPOLLOUT)
  | .delEvent _ _ _ => (io.1, false)
  | .del _ _ => (false, false)

/-- Whether reading and writing are watched for after these calls. -/
def watched (calls : List (EpollCall PollCallback)) : Bool × Bool :=
  calls.foldl watchedAfter (false, false)

/-- The mask of an entry. -/
def interestMask (io : Bool × Bool) : Mask :=
  (if io.1 then EPOLLIN else 0) ||| if io.2 then EPOLLOUT else 0

/-- The entry of a descriptor watches for this, with the callbacks; there is none for nothing. -/
structure Watches (e : Epoll PollCallback) (fd : Int) (io : Bool × Bool) : Prop where
  absent : io.1 = false → io.2 = false → e.epEventMap fd = none
  entry : io.1 = true ∨ io.2 = true → ∃ entry, e.epEventMap fd = some entry ∧
    entry.event = interestMask io ∧ (io.1 = true → entry.readCallback = some .doRead) ∧
      (io.2 = true → entry.writeCallback = some .doWrite)

variable {e : Epoll PollCallback} {fd : Int} {io : Bool × Bool}

/-- A call leaves the entries of other descriptors. -/
theorem epEventMap_apply_of_ne {c : EpollCall PollCallback} (hne : fd ≠ c.fd) :
    (e.apply c).epEventMap fd = e.epEventMap fd := by
  cases c with
  | add fd' event cb ok =>
    change fd ≠ fd' at hne
    simp [Epoll.apply, epollAdd, epollAddMap, hne]
  | delEvent fd' event ok =>
    change fd ≠ fd' at hne
    simp only [Epoll.apply, epollDel_eq]
    split
    · rfl
    · split <;> simp [epollDelFd, epollDelCtl, epollDelMap, hne]
  | del fd' ok =>
    change fd ≠ fd' at hne
    simp [Epoll.apply, epollDelFd, epollDelCtl, epollDelMap, hne]

/-- The entry that `ep_event_map[fd]` finds or creates. -/
theorem Watches.getD (h : Watches e fd io) :
    ((e.epEventMap fd).getD .fresh).event = interestMask io ∧
      (io.1 = true → ((e.epEventMap fd).getD .fresh).readCallback = some .doRead) ∧
      (io.2 = true → ((e.epEventMap fd).getD .fresh).writeCallback = some .doWrite) := by
  by_cases hio : io.1 = true ∨ io.2 = true
  · obtain ⟨entry, hentry, hrest⟩ := h.entry hio
    rwa [hentry]
  · obtain ⟨hi, ho⟩ := not_or.mp hio
    rw [h.absent (Bool.eq_false_of_not_eq_true hi) (Bool.eq_false_of_not_eq_true ho)]
    refine ⟨?_, fun h ↦ absurd h hi, fun h ↦ absurd h ho⟩
    simp [interestMask, hi, ho, IoEvent.fresh]

/-- The entry after `epoll_add`. -/
theorem epEventMap_add_self (event : Mask) (cb : Option PollCallback) (ok : Bool) :
    (e.apply (.add fd event cb ok)).epEventMap fd =
      some { ((e.epEventMap fd).getD .fresh).setCallback event cb with
        event := ((e.epEventMap fd).getD .fresh).event ||| event } := by
  have hop : (epollAddOp e fd event).2 = ((e.epEventMap fd).getD .fresh).event ||| event := by
    unfold epollAddOp
    cases e.epEventMap fd with
    | none => simp [IoEvent.fresh]
    | some ret => rfl
  rw [← hop]
  simp [Epoll.apply, epollAdd, epollAddMap]

/-- `add_to_poller` for reading. -/
theorem Watches.addIn (h : Watches e fd io) :
    Watches (e.apply (.add fd EPOLLIN (some .doRead) true)) fd (true, io.2) := by
  obtain ⟨hevent, -, hwrite⟩ := h.getD
  refine ⟨nofun, fun _ ↦ ⟨_, epEventMap_add_self .., ?_, fun _ ↦ rfl, hwrite⟩⟩
  rw [hevent]
  obtain ⟨i, o⟩ := io
  cases i <;> cases o <;> rfl

/-- `add_to_poller` for writing. -/
theorem Watches.addOut (h : Watches e fd io) :
    Watches (e.apply (.add fd EPOLLOUT (some .doWrite) true)) fd (io.1, true) := by
  obtain ⟨hevent, hread, -⟩ := h.getD
  refine ⟨nofun, fun _ ↦ ⟨_, epEventMap_add_self .., ?_, hread, fun _ ↦ rfl⟩⟩
  rw [hevent]
  obtain ⟨i, o⟩ := io
  cases i <;> cases o <;> rfl

/-- `del_from_poller` for writing. -/
theorem Watches.delOut (h : Watches e fd io) :
    Watches (e.apply (.delEvent fd EPOLLOUT true)) fd (io.1, false) := by
  simp only [Epoll.apply, epollDel_eq]
  by_cases hio : io.1 = true ∨ io.2 = true
  · obtain ⟨entry, hentry, hevent, hread, -⟩ := h.entry hio
    simp only [hentry, hevent]
    obtain ⟨i, o⟩ := io
    cases i with
    | true =>
      have hmask : interestMask (true, o) &&& ~~~EPOLLOUT = EPOLLIN := by cases o <;> rfl
      have hrest : EPOLLIN = interestMask (true, false) := by decide
      rw [hmask, if_neg (by decide)]
      exact ⟨by simp, fun _ ↦ ⟨_, Function.update_self .., hrest, hread, by simp⟩⟩
    | false =>
      have hmask : interestMask (false, o) &&& ~~~EPOLLOUT = 0 := by cases o <;> rfl
      rw [if_pos hmask]
      exact ⟨fun _ _ ↦ Function.update_self .., by simp⟩
  · obtain ⟨hi, ho⟩ := not_or.mp hio
    have hnone := h.absent (Bool.eq_false_of_not_eq_true hi) (Bool.eq_false_of_not_eq_true ho)
    rw [hnone]
    exact ⟨fun _ _ ↦ hnone, fun hor ↦ absurd (hor.resolve_right Bool.false_ne_true) hi⟩

/-- A call of the connection changes its entry as it should. -/
theorem Watches.apply (h : Watches e fd io) {c : EpollCall PollCallback} (hc : IsConnCall fd c) :
    Watches (e.apply c) fd (watchedAfter io c) := by
  rcases hc with rfl | rfl | rfl
  · have hafter : watchedAfter io (.add fd EPOLLIN (some .doRead) true) = (true, io.2) := by
      simp [watchedAfter, EPOLLIN, EPOLLOUT]
    rw [hafter]
    exact h.addIn
  · have hafter : watchedAfter io (.add fd EPOLLOUT (some .doWrite) true) = (io.1, true) := by
      simp [watchedAfter, EPOLLIN, EPOLLOUT]
    rw [hafter]
    exact h.addOut
  · exact h.delOut

/-- However the calls for other descriptors come in between, the entry is what the connection's
own calls make of it. -/
theorem Watches.foldl {calls : List (EpollCall PollCallback)} (h : Watches e fd io)
    (own : ∀ c ∈ calls.filter (·.fd = fd), IsConnCall fd c) :
    Watches (calls.foldl Epoll.apply e) fd
      ((calls.filter (·.fd = fd)).foldl watchedAfter io) := by
  induction calls generalizing e io with
  | nil => exact h
  | cons c calls ih =>
    by_cases hc : c.fd = fd
    · rw [List.filter_cons_of_pos (by simpa using hc)] at own ⊢
      exact ih (h.apply (own c List.mem_cons_self)) fun c' hc' ↦
        own c' (List.mem_cons_of_mem c hc')
    · rw [List.filter_cons_of_neg (by simpa using hc)] at own ⊢
      have hframe := epEventMap_apply_of_ne (e := e) (c := c) (Ne.symm hc)
      refine ih ⟨fun hi ho ↦ ?_, fun hio ↦ ?_⟩ own
      · rw [hframe]
        exact h.absent hi ho
      · rw [hframe]
        exact h.entry hio

/-- Calls whose `epoll_ctl` succeeds keep the bookkeeping and the kernel in agreement. -/
theorem agree_foldl {calls : List (EpollCall PollCallback)} (h : e.Agree)
    (ok : ∀ c ∈ calls, c.ok = true) : (calls.foldl Epoll.apply e).Agree := by
  induction calls generalizing e with
  | nil => exact h
  | cons c calls ih =>
    refine ih ((agree_apply_iff_nothingToUndo e c h).mpr ?_).1 fun c' hc' ↦
      ok c' (List.mem_cons_of_mem c hc')
    have hc := ok c List.mem_cons_self
    cases c <;> exact Or.inl hc

/-! ### Calls -/

/-- The use of connection `n`, whose descriptor is `fd`, while it is open: `add_task`, `send`,
`do_write` and `do_close`. -/
def ConnUse (n : Nat) (fd : Int) (s : BufferState) : BufferAction → Prop
  | .start i c => i = .output n → closed (s.log i) = false ∧
    match c with
    | .addTask fd' | .send fd' _ | .doWrite fd' => fd' = fd
    | .clear => True
    | _ => False
  | _ => True

instance (n : Nat) (fd : Int) (s : BufferState) : DecidablePred (ConnUse n fd s)
  | .start i c =>
    match c with
    | .addTask fd' | .send fd' _ | .doWrite fd' =>
      inferInstanceAs (Decidable (i = .output n → closed (s.log i) = false ∧ fd' = fd))
    | .clear => inferInstanceAs (Decidable (i = .output n → closed (s.log i) = false ∧ True))
    | .readFromFd _ | .adjust | .write2buf _ | .write2fd _ | .pop _ =>
      inferInstanceAs (Decidable (i = .output n → closed (s.log i) = false ∧ False))
  | .perform _ _ | .loop _ | .finish _ => inferInstanceAs (Decidable True)

/-- Between the calls of an open connection the interest is as it should be. -/
structure InterestHolds (fd : Int) (log : CallLog) (b : Option (Nat × Chunk)) (tr : Trace) :
    Prop where
  own : ∀ c ∈ tr.calls, IsConnCall fd c
  output : View.lengthOf b ≠ 0 → (watched tr.calls).2 = true
  input : ⟨.addTask fd, ()⟩ ∈ log → (watched tr.calls).1 = true
  written : ∀ log', log = log' ++ [⟨.doWrite fd, false⟩] →
    ((watched tr.calls).2 = true ↔ View.lengthOf b ≠ 0)

theorem watched_append (calls : List (EpollCall PollCallback)) (c : EpollCall PollCallback) :
    watched (calls ++ [c]) = watchedAfter (watched calls) c := by
  rw [watched, List.foldl_append]
  rfl

/-- After a `send` the interest in writing is there. -/
theorem watched_afterSend {tr : Trace} {length : Int}
    (output : length ≠ 0 → (watched tr.calls).2 = true) :
    watched (tr.afterSend fd length).calls = ((watched tr.calls).1, true) := by
  unfold Trace.afterSend
  split
  · rw [Trace.poll, watched_append]
    simp [watchedAfter, EPOLLIN, EPOLLOUT]
  · next hlength => exact Prod.ext rfl (output hlength)

/-- After a `do_write` it is there exactly when output remains. -/
theorem watched_afterDoWrite {tr : Trace} {length : Int}
    (output : length ≠ 0 → (watched tr.calls).2 = true) :
    watched (tr.afterDoWrite fd length).calls = ((watched tr.calls).1, decide (length ≠ 0)) := by
  unfold Trace.afterDoWrite
  split
  · next hlength =>
    rw [Trace.poll, watched_append]
    simp [watchedAfter, hlength]
  · next hlength =>
    refine Prod.ext rfl ?_
    simpa [hlength] using output hlength

theorem own_afterSend {tr : Trace} {length : Int} (own : ∀ c ∈ tr.calls, IsConnCall fd c) :
    ∀ c ∈ (tr.afterSend fd length).calls, IsConnCall fd c := by
  unfold Trace.afterSend
  split
  · intro c hc
    rcases List.mem_append.mp hc with hc | hc
    · exact own c hc
    · exact Or.inr (Or.inl (List.mem_singleton.mp hc))
  · exact own

theorem own_afterDoWrite {tr : Trace} {length : Int} (own : ∀ c ∈ tr.calls, IsConnCall fd c) :
    ∀ c ∈ (tr.afterDoWrite fd length).calls, IsConnCall fd c := by
  unfold Trace.afterDoWrite
  split
  · intro c hc
    rcases List.mem_append.mp hc with hc | hc
    · exact own c hc
    · exact Or.inr (Or.inr (List.mem_singleton.mp hc))
  · exact own

/-- An open connection keeps the interest as it should be through every call. -/
theorem wp_interest {log : CallLog} {b : Option (Nat × Chunk)} {tr : Trace} {c : Call}
    {legal : Effect → Input → View → Prop} (h : InterestHolds fd log b tr)
    (used : c = .addTask fd ∨ (∃ values, c = .send fd values) ∨ c = .doWrite fd ∨ c = .clear) :
    wp (View.spec legal) (fun _ ↦ True) c.body
      (fun r l ↦ ∃ b tr, l = .idle b tr ∧
        (closed (log ++ [⟨c, r⟩]) = false → InterestHolds fd (log ++ [⟨c, r⟩]) b tr))
      (.idle b tr) := by
  obtain ⟨hown, houtput, hinput, -⟩ := h
  -- `add_task` is only new in the log if it is the call.
  have older {e : (c : Call) × c.Ret} (he : e ≠ ⟨.addTask fd, ()⟩)
      (hmem : ⟨.addTask fd, ()⟩ ∈ log ++ [e]) : (watched tr.calls).1 = true :=
    hinput ((List.mem_append.mp hmem).resolve_right fun h ↦ he (List.mem_singleton.mp h).symm)
  have last {e e' : (c : Call) × c.Ret} {log' : CallLog} (h : log ++ [e] = log' ++ [e']) :
      e = e' := (List.append_inj' h rfl).2 |> List.singleton_inj.mp
  rcases used with rfl | ⟨values, rfl⟩ | rfl | rfl
  · refine wp_addTask ⟨b, _, rfl, fun _ ↦ ⟨?_, ?_, ?_, fun log' he ↦ ?_⟩⟩
    · intro c hc
      rcases List.mem_append.mp hc with hc | hc
      · exact hown c hc
      · exact Or.inl (List.mem_singleton.mp hc)
    · intro hlength
      rw [Trace.poll, watched_append]
      simp [watchedAfter, houtput hlength]
    · intro _
      rw [Trace.poll, watched_append]
      simp [watchedAfter]
    · cases last he
  · refine wp_send trivial (Or.inl trivial) (fun _ ↦ ⟨b, tr, rfl, fun _ ↦ ⟨hown, houtput,
      older nofun, fun log' he ↦ nomatch last he⟩⟩) fun a c _ ↦ ?_
    refine ⟨_, _, rfl, fun _ ↦ ⟨own_afterSend hown, fun _ ↦ ?_, fun hmem ↦ ?_,
      fun log' he ↦ nomatch last he⟩⟩
    · rw [watched_afterSend houtput]
    · rw [watched_afterSend houtput]
      refine older ?_ hmem
      exact nofun
  · refine wp_doWrite (fun b' tr' ↦ tr'.calls = tr.calls ∧
      (View.lengthOf b' ≠ 0 → (watched tr.calls).2 = true)) ⟨rfl, houtput⟩ (Or.inl trivial) ?_ ?_ ?_
    · rintro a c tr' n ⟨hcalls, hout⟩ - hlength -
      exact ⟨hcalls, fun _ ↦ hout hlength⟩
    · rintro b' tr' ⟨hcalls, hout⟩
      rw [← hcalls] at hown hout older
      refine ⟨b', _, rfl, fun _ ↦ ⟨own_afterDoWrite hown, ?_, ?_, fun _ _ ↦ ?_⟩⟩
      all_goals rw [watched_afterDoWrite hout]
      · exact fun hlength ↦ decide_eq_true hlength
      · exact older nofun
      · exact decide_eq_true_iff
    · intro tr'
      refine ⟨none, tr', rfl, fun hopen ↦ ?_⟩
      rw [closed_append] at hopen
      simp [closed] at hopen
  · refine wp_clear ⟨none, tr, rfl, fun hopen ↦ ?_⟩
    rw [closed_append] at hopen
    simp [closed] at hopen

/-- The proof for connection `n`; of the other buffers nothing is asked. -/
def interestLogic (n : Nat) (fd : Int) : ObjectLogic buffers (ConnUse n fd) View :=
  bufferLogic (fun _ _ _ _ ↦ True) (fun _ _ ↦ True)
    (fun i log b tr ↦ i = .output n → closed log = false → InterestHolds fd log b tr)
    (fun _ _ _ ↦ trivial)
    (by
      intro s ls i c b tr hsplit hl hinv hoffers hadmits
      by_cases hi : i = .output n
      · subst hi
        obtain ⟨hopen, hcall⟩ := hadmits rfl
        refine wp_mono (wp_interest (hinv rfl hopen) ?_)
          fun r l ⟨b, tr, hl, hholds⟩ ↦ ⟨b, tr, hl, fun _ ↦ hholds⟩
        cases c with
        | addTask fd' => exact Or.inl (congrArg Call.addTask hcall)
        | send fd' values => exact Or.inr (Or.inl ⟨values, by rw [show fd' = fd from hcall]⟩)
        | doWrite fd' => exact Or.inr (Or.inr (Or.inl (congrArg Call.doWrite hcall)))
        | clear => exact Or.inr (Or.inr (Or.inr rfl))
        | _ => exact hcall.elim
      · refine wp_mono (wp_body (fun _ ↦ trivial) c b tr) ?_
        rintro r l ⟨b, tr, hl⟩
        exact ⟨b, tr, hl, fun h ↦ absurd h hi⟩)

/-- What the epoller must have for the descriptor `fd` of an open connection with `tc_obuf`
of this length, after these calls. -/
structure PollerServes (e : Epoll PollCallback) (fd length : Int) (log : CallLog) : Prop where
  /-- Output is waiting for a write event. -/
  output : 0 < length → ∃ entry, e.epEventMap fd = some entry ∧
    e.interest fd = some entry.event ∧ entry.event &&& EPOLLOUT ≠ 0 ∧
      entry.writeCallback = some .doWrite
  /-- After a `do_write` that has left the connection open. -/
  written : ∀ log', log = log' ++ [⟨.doWrite fd, false⟩] →
    ((∃ entry, e.epEventMap fd = some entry ∧ e.interest fd = some entry.event ∧
      entry.event &&& EPOLLOUT ≠ 0) ↔ length ≠ 0)
  /-- After `add_task`. -/
  input : ⟨.addTask fd, ()⟩ ∈ log → ∃ entry, e.epEventMap fd = some entry ∧
    e.interest fd = some entry.event ∧ entry.event &&& EPOLLIN ≠ 0

/-- What the entry watches for, the kernel does. -/
theorem Watches.serves (h : Watches e fd io) (agree : e.Agree) {length : Int} {log : CallLog}
    (output : length ≠ 0 → io.2 = true)
    (written : ∀ log', log = log' ++ [⟨.doWrite fd, false⟩] → (io.2 = true ↔ length ≠ 0))
    (input : ⟨.addTask fd, ()⟩ ∈ log → io.1 = true) : PollerServes e fd length log := by
  have kernel {entry : IoEvent PollCallback} (hentry : e.epEventMap fd = some entry) :
      e.interest fd = some entry.event := by
    rw [(agree fd).1, hentry]
    rfl
  have writable (ho : io.2 = true) : ∃ entry, e.epEventMap fd = some entry ∧
      e.interest fd = some entry.event ∧ entry.event &&& EPOLLOUT ≠ 0 ∧
        entry.writeCallback = some .doWrite := by
    obtain ⟨entry, hentry, hevent, -, hwrite⟩ := h.entry (Or.inr ho)
    refine ⟨entry, hentry, kernel hentry, ?_, hwrite ho⟩
    rw [hevent, interestMask, ho]
    cases io.1 <;> decide
  refine ⟨fun hlength ↦ writable (output (by omega)), fun log' he ↦ ?_, fun hmem ↦ ?_⟩
  · rw [← written log' he]
    constructor
    · rintro ⟨entry, hentry, -, hmask⟩
      by_contra ho
      have ho := Bool.eq_false_of_not_eq_true ho
      cases hi : io.1 with
      | false =>
        rw [h.absent hi ho] at hentry
        cases hentry
      | true =>
        obtain ⟨entry', hentry', hevent, -⟩ := h.entry (Or.inl hi)
        obtain rfl := Option.some.inj (hentry.symm.trans hentry')
        rw [hevent, interestMask, hi, ho] at hmask
        exact hmask (by decide)
    · intro ho
      obtain ⟨entry, hentry, hkernel, hmask, -⟩ := writable ho
      exact ⟨entry, hentry, hkernel, hmask⟩
  · have hi := input hmem
    obtain ⟨entry, hentry, hevent, -⟩ := h.entry (Or.inl hi)
    refine ⟨entry, hentry, kernel hentry, ?_⟩
    rw [hevent, interestMask, hi]
    cases io.2 <;> decide

/-- Started with an empty buffer, in every run that uses it so, between the calls of an open
connection the epoller of its loop serves it, whatever calls with other descriptors come between
the connection's own. -/
theorem output_keeps_interest {s₀ s : BufferState} {n : Nat} {fd : Int}
    (h : ReachBy buffers.step (ConnUse n fd) s₀ s) (settled : Settled s₀)
    (empty : s₀.mem.dataBuf (.output n) = none) (unused : s₀.log (.output n) = [])
    (uncalled : (s₀.mem.trace (.output n)).calls = [])
    (idle : s.thread (.output n) = .idle) (isOpen : closed (s.log (.output n)) = false)
    {calls : List (EpollCall PollCallback)} (ok : ∀ c ∈ calls, c.ok = true)
    (own : calls.filter (·.fd = fd) = (s.mem.trace (.output n)).calls)
    (agree : e.Agree) (unwatched : e.epEventMap fd = none) :
    PollerServes (calls.foldl Epoll.apply e) fd (s.mem.length (.output n))
      (s.log (.output n)) := by
  obtain ⟨ls₀, hsplit₀, hidle₀⟩ := settled.split
  have start : (interestLogic n fd).Holds s₀ ls₀ := by
    refine ⟨hsplit₀, fun i ↦ ?_, fun _ _ _ ↦ trivial⟩
    rw [settled.thread i]
    obtain ⟨b, tr, hi⟩ := hidle₀ i
    refine ⟨b, tr, hi, ?_⟩
    rintro rfl -
    rw [unused]
    obtain rfl := hsplit₀.eq_none hi empty
    rw [hsplit₀.trace_eq hi] at uncalled
    refine ⟨?_, fun hne ↦ absurd rfl hne, nofun, fun log' he ↦ ?_⟩
    · rw [uncalled]
      exact nofun
    · simp at he
  obtain ⟨ls, hls⟩ := (interestLogic n fd).holds_of_reachBy h ⟨ls₀, start⟩
  obtain ⟨b, tr, hl, hholds⟩ := hls.idle idle
  obtain ⟨hown, houtput, hinput, hwritten⟩ := hholds rfl isOpen
  have htrace := Split.trace_eq hls.coh hl
  have hlength : s.mem.length (.output n) = View.lengthOf b := Split.length_eq hls.coh hl
  rw [htrace] at own
  rw [hlength]
  have hwatches : Watches (calls.foldl Epoll.apply e) fd (watched tr.calls) := by
    have hstart : Watches e fd (false, false) := ⟨fun _ _ ↦ unwatched, nofun⟩
    rw [watched, ← own]
    exact hstart.foldl (by rwa [own])
  exact hwatches.serves (agree_foldl agree ok) houtput hwritten hinput

/-- A connection is added, sends and writes a part. -/
def addAndWrite : List BufferAction :=
  [.start (.output 0) (.addTask 7), .perform (.output 0) .none, .finish (.output 0)] ++ sendAndWrite

/-- The connection is served while another descriptor is added and deleted. -/
theorem interest_after_write :
    ∃ s, run buffers.step (BufferState.init fun _ _ ↦ 9) addAndWrite = some s ∧
      PollerServes ([.add 5 EPOLLIN (some .doRead) true, .add 7 EPOLLIN (some .doRead) true,
        .del 5 true, .add 7 EPOLLOUT (some .doWrite) true].foldl Epoll.apply .init) 7
        (s.mem.length (.output 0)) (s.log (.output 0)) := by
  have hrun : (run buffers.step (BufferState.init fun _ _ ↦ 9) addAndWrite).isSome := by
    decide +kernel
  have hfacts : ∀ t ∈ run buffers.step (BufferState.init fun _ _ ↦ 9) addAndWrite,
      (t.thread (.output 0)).isIdle = true ∧ closed (t.log (.output 0)) = false ∧
        (t.mem.trace (.output 0)).calls =
          [.add 7 EPOLLIN (some .doRead) true, .add 7 EPOLLOUT (some .doWrite) true] := by
    decide +kernel
  obtain ⟨s, hs⟩ := Option.isSome_iff_exists.mp hrun
  obtain ⟨hidle, hopen, hcalls⟩ := hfacts s hs
  have hreach : ReachBy buffers.step (ConnUse 0 7) (BufferState.init fun _ _ ↦ 9) s :=
    reachBy_of_run hs (by decide +kernel)
  refine ⟨s, hs, output_keeps_interest hreach (settled_init _) rfl rfl rfl
    (Thread.eq_idle hidle) hopen (by decide) ?_ agree_init rfl⟩
  rw [hcalls]
  decide

end ConcurrentServer.Memory
