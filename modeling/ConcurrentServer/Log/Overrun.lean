import ConcurrentServer.Log.LineLimit

/-!
# How far a file exceeds the line limit

`src/log/log.cpp:153–217`, `src/log/log.h:63–78`. A rotation leaves to the stream that it opens
what was counted before it and is not written yet: a record of each other thread, those in the
queue, and the one that the writer has in hand. What a stream receives beyond `l_split_lines` is
at most that, whatever the dates of the calls.
-/

namespace ConcurrentServer.Log
open ConcurrentServer.Base

variable {Text : Type}

namespace AsyncLog

variable {T : Type} {s t : AsyncLog T} {a : LogAction T} {l : List T}

/-- The number of records that are pushed and not yet written. -/
def backlog (s : AsyncLog T) : Int := s.pushed.length - s.lFp.length

/-- The capacity stays, and while the flag is not set the records that are not yet written are in
the queue or in hand. -/
structure Behind (s : AsyncLog T) (capacity : Int) : Prop where
  capacity : s.lBufferQueue.capacity = capacity
  behind : s.isThreadStop = false →
    s.backlog = s.writer.inHand.length + s.lBufferQueue.bSize

/-- The writer has one record in hand at most. -/
theorem length_inHand_le (pc : WriterPc T) : pc.inHand.length ≤ 1 := by
  cases pc with
  | pop | empty | waiting | done => exact Nat.zero_le 1
  | test | fputs => exact Nat.le_refl 1

/-- Before the first step. -/
theorem behind_init (cells : Int → T) (bufferQueueSize : Int) :
    (init cells bufferQueueSize).Behind bufferQueueSize := by
  constructor
  · rfl
  · intro _
    rfl

/-- Every step. -/
theorem Behind.step {capacity : Int} (h : s.Behind capacity) (hstep : Step s a t) :
    t.Behind capacity := by
  constructor
  · cases hstep with
    | _ => exact h.capacity
  intro hrun
  cases hstep with
  | log | retry | destroy | join => exact h.behind hrun
  | refused | notify =>
    show s.backlog = s.writer.notify.inHand.length + s.lBufferQueue.bSize
    rw [WriterPc.inHand_notify]
    exact h.behind hrun
  | pushed c logStr at_ free room =>
    have hold := h.behind hrun
    show ((s.pushed ++ [logStr]).length : Int) - s.lFp.length =
      s.writer.notify.inHand.length + (s.lBufferQueue.bSize + 1)
    rw [WriterPc.inHand_notify, List.length_append, List.length_singleton]
    unfold backlog at hold
    omega
  | empty at_ | block at_ | fail notified at_ | pass singleLine at_ =>
    have hold := h.behind hrun
    rw [at_] at hold
    exact hold
  | take at_ some_ =>
    have hold := h.behind hrun
    rw [WriterPc.inHand_of_taking at_, List.length_nil] at hold
    show s.backlog = 1 + (s.lBufferQueue.bSize - 1)
    omega
  | drop singleLine at_ stop =>
    rw [stop] at hrun
    cases hrun
  | fputs singleLine at_ =>
    have hold := h.behind hrun
    rw [at_] at hold
    show (s.pushed.length : Int) - (s.lFp ++ [singleLine]).length = 0 + s.lBufferQueue.bSize
    rw [List.length_append, List.length_singleton]
    change (s.pushed.length : Int) - s.lFp.length = 1 + s.lBufferQueue.bSize at hold
    omega
  | stop => cases hrun

/-- While the flag is not set, the backlog is at most a full queue and a record in hand. -/
theorem backlog_le {cells : Int → T} {bufferQueueSize : Int} (hsize : 1 ≤ bufferQueueSize)
    (h : Reach step (init cells bufferQueueSize) s) (run : s.isThreadStop = false) :
    s.backlog ≤ bufferQueueSize + 1 := by
  have hbehind : s.Behind bufferQueueSize := by
    apply h.invariant (P := fun s ↦ s.Behind bufferQueueSize)
    · exact behind_init cells bufferQueueSize
    · intro s a t hs _ hstep
      exact hs.step (step_inversion hstep)
  obtain ⟨l, hl⟩ := ordered_of_reach hsize h
  have hbacklog := hbehind.behind run
  have hroom := hl.holds.size.2
  have hhand := length_inHand_le s.writer
  rw [hbehind.capacity] at hroom
  omega

/-- What the writer is about to write is part of the backlog. -/
theorem Ordered.tested_le_backlog (h : s.Ordered l) :
    (s.writer.tested.length : Int) ≤ s.backlog := by
  obtain ⟨dropped, hpushed, -⟩ := h.inOrder
  have hlength := congrArg List.length hpushed
  simp only [WriterPc.inHand, List.length_append] at hlength
  unfold backlog
  omega

end AsyncLog

namespace LogSystem

/-- Only the first `n` threads log. -/
def ByThreads (n : Nat) : LogSystemAction Text → Prop
  | .log i _ _ => i < n
  | .thread _ _ | .writer | .destroy | .destructor => True

instance (n : Nat) (a : LogSystemAction Text) : Decidable (ByThreads n a) :=
  match a with
  | .log i _ _ => inferInstanceAs (Decidable (i < n))
  | .thread _ _ | .writer | .destroy | .destructor => inferInstanceAs (Decidable True)

/-- The number of those threads that have counted their record and not pushed it yet. -/
def inFlight (s : LogSystem Text) (n : Nat) : Nat :=
  Nat.count (fun i ↦ (s.threads i).counted?.isSome) n

/-- The number of records that are counted and not yet written. -/
def lag (s : LogSystem Text) (n : Nat) : Int := s.inFlight n + s.asyncLog.backlog

variable {s t : LogSystem Text} {a : LogSystemAction Text} {n : Nat} {splitLines excess : Int}

/-- Other threads than the first `n` do not log. -/
def OthersIdle (s : LogSystem Text) (n : Nat) : Prop := ∀ i, n ≤ i → s.threads i = .idle

/-- A thread at work is one of the first `n`. -/
theorem OthersIdle.lt (h : s.OthersIdle n) {i : Nat} (at_ : s.threads i ≠ .idle) : i < n := by
  by_contra hge
  exact at_ (h i (Nat.le_of_not_lt hge))

/-- The others stay idle when one of the first `n` moves. -/
theorem OthersIdle.update (h : s.OthersIdle n) {i : Nat} (hi : i < n) {pc : LogPc Text}
    (threads : t.threads = Function.update s.threads i pc) : t.OthersIdle n := by
  intro j hj
  rw [threads, Function.update_of_ne (by omega)]
  exact h j hj

/-- The records in flight when a thread moves. -/
theorem inFlight_update {i : Nat} (hi : i < n) {pc : LogPc Text}
    (threads : t.threads = Function.update s.threads i pc) :
    t.inFlight n + (if (s.threads i).counted?.isSome then 1 else 0) =
      s.inFlight n + (if pc.counted?.isSome then 1 else 0) := by
  unfold inFlight
  rw [threads]
  exact count_update (fun pc ↦ pc.counted?.isSome) s.threads hi pc

/-- A thread that has not counted its record is not in flight. -/
theorem inFlight_lt {i : Nat} (hi : i < n) (uncounted : (s.threads i).counted? = none) :
    s.inFlight n < n := by
  apply Nat.lt_of_le_of_ne (Nat.count_le _)
  intro hall
  have hcounted := Nat.count_iff_forall.mp hall i hi
  rw [uncounted] at hcounted
  cases hcounted

/-- A record that is counted is in flight. -/
theorem lag_counted {i : Nat} (hi : i < n) {pc : LogPc Text}
    (uncounted : (s.threads i).counted? = none) (counted : pc.counted?.isSome = true)
    (threads : t.threads = Function.update s.threads i pc) (asyncLog : t.asyncLog = s.asyncLog) :
    t.lag n = s.lag n + 1 := by
  have hcount := inFlight_update hi threads
  rw [uncounted, counted] at hcount
  simp only [Option.isSome_none, Bool.false_eq_true, ite_false, ite_true] at hcount
  unfold lag
  rw [asyncLog]
  omega

/-- Nothing is pushed or written, and no thread moves. -/
theorem lag_of_same (threads : t.threads = s.threads)
    (pushed : t.asyncLog.pushed = s.asyncLog.pushed) (lFp : t.asyncLog.lFp = s.asyncLog.lFp) :
    t.lag n = s.lag n := by
  unfold lag inFlight AsyncLog.backlog
  rw [threads, pushed, lFp]

/-- What a stream may still receive is bounded: the newest has received, with what is counted and
not yet written, what was left to it and what was counted since. Once the flag is set, one
record at most is still written. -/
structure Overrun (s : LogSystem Text) (n : Nat) (splitLines excess : Int) : Prop where
  idle : s.OthersIdle n
  split : s.lSplitLines = splitLines
  nonneg : 0 ≤ s.lCount
  limit : ∀ file ∈ s.files, (file.records.length : Int) ≤ splitLines + excess
  running : s.isNull = false → s.asyncLog.isThreadStop = false → ∀ newest older,
    s.files = newest :: older →
    newest.records.length + s.lag n ≤ s.lCount % splitLines + 1 + excess
  stopping : s.isNull = false → s.asyncLog.isThreadStop = true → ∀ newest older,
    s.files = newest :: older →
    (newest.records.length + s.asyncLog.writer.tested.length : Int) ≤ splitLines + excess

/-- The files and the count stay. -/
theorem Overrun.keep (h : s.Overrun n splitLines excess) (idle : t.OthersIdle n)
    (files : t.files = s.files) (isNull : t.isNull = s.isNull) (lCount : t.lCount = s.lCount)
    (split : t.lSplitLines = s.lSplitLines)
    (stop : t.asyncLog.isThreadStop = s.asyncLog.isThreadStop)
    (lag : s.asyncLog.isThreadStop = false → t.lag n = s.lag n)
    (tested : s.asyncLog.isThreadStop = true →
      t.asyncLog.writer.tested.length ≤ s.asyncLog.writer.tested.length) :
    t.Overrun n splitLines excess := by
  constructor
  · exact idle
  · rw [split]
    exact h.split
  · rw [lCount]
    exact h.nonneg
  · rw [files]
    exact h.limit
  · rw [files, isNull, lCount, stop]
    intro hnull hrun newest older hfiles
    rw [lag hrun]
    exact h.running hnull hrun newest older hfiles
  · rw [files, isNull, stop]
    intro hnull hstop newest older hfiles
    have hroom := h.stopping hnull hstop newest older hfiles
    have hle := tested hstop
    omega

/-- A thread moves outside its push loop, and is in flight as it was. -/
theorem Overrun.keepThread (h : s.Overrun n splitLines excess) {i : Nat} {pc : LogPc Text}
    (working : i < n) (threads : t.threads = Function.update s.threads i pc)
    (same : pc.counted?.isSome = (s.threads i).counted?.isSome)
    (files : t.files = s.files) (isNull : t.isNull = s.isNull) (lCount : t.lCount = s.lCount)
    (split : t.lSplitLines = s.lSplitLines)
    (stop : t.asyncLog.isThreadStop = s.asyncLog.isThreadStop)
    (backlog : t.asyncLog.backlog = s.asyncLog.backlog)
    (tested : s.asyncLog.isThreadStop = true →
      t.asyncLog.writer.tested.length ≤ s.asyncLog.writer.tested.length) :
    t.Overrun n splitLines excess := by
  refine h.keep (h.idle.update working threads) files isNull lCount split stop (fun _ ↦ ?_) tested
  have hcount := inFlight_update working threads
  rw [same] at hcount
  unfold lag
  rw [backlog]
  omega

/-- A rotation opens a stream, or fails to. -/
theorem Overrun.rotate (h : s.Overrun n splitLines excess) (hsplit : 1 ≤ splitLines)
    (hexcess : 0 ≤ excess) (name : FileName) (opened : Bool) (idle : t.OthersIdle n)
    (split : t.lSplitLines = s.lSplitLines) (nonneg : 0 ≤ t.lCount)
    (full : t.lCount % splitLines = 0)
    (files : t.files = if opened then ⟨name, []⟩ :: s.files else s.files)
    (isNull : t.isNull = !opened)
    (lag : t.asyncLog.isThreadStop = false → t.lag n ≤ 1 + excess) :
    t.Overrun n splitLines excess := by
  cases opened with
  | false =>
    refine ⟨idle, split.trans h.split, nonneg, ?_, ?_, ?_⟩
    · rw [files]
      exact h.limit
    · rw [isNull]
      intro hnull
      cases hnull
    · rw [isNull]
      intro hnull
      cases hnull
  | true =>
    refine ⟨idle, split.trans h.split, nonneg, ?_, ?_, ?_⟩
    · intro file hfile
      rw [files] at hfile
      rcases List.mem_cons.mp hfile with rfl | hold
      · show (0 : Int) ≤ splitLines + excess
        omega
      · exact h.limit file hold
    · intro _ hrun newest older hfiles
      have hlag := lag hrun
      rw [files] at hfiles
      cases hfiles
      show (0 : Int) + t.lag n ≤ t.lCount % splitLines + 1 + excess
      omega
    · intro _ _ newest older hfiles
      rw [files] at hfiles
      cases hfiles
      have hle := length_tested_le t.asyncLog.writer
      show (0 + t.asyncLog.writer.tested.length : Int) ≤ splitLines + excess
      omega

/-- A count, with a rotation or without one. -/
theorem Overrun.count (h : s.Overrun n splitLines excess) (hsplit : 1 ≤ splitLines)
    (hexcess : 0 ≤ excess) {i : Nat} {opened : Bool} {entry : Entry Text} {tm : MyTime}
    {u : LogSystem Text} (at_ : s.threads i = .count entry tm)
    (counted : s.count tm opened = some u)
    (hlag : s.asyncLog.isThreadStop = false → s.lag n ≤ excess) :
    Overrun { u.setThread i (.lockBuf entry) with lMutex := none } n splitLines excess := by
  have hworking : i < n := h.idle.lt (by simp [at_])
  have hthreads := threads_count counted i (.lockBuf entry)
  obtain ⟨file, -, hu⟩ := count_eq_some counted
  have hidle : OthersIdle { u.setThread i (.lockBuf entry) with lMutex := none } n :=
    h.idle.update hworking hthreads
  have hmore : lag { u.setThread i (.lockBuf entry) with lMutex := none } n = s.lag n + 1 :=
    lag_counted hworking (by rw [at_]; rfl) rfl hthreads (by show u.asyncLog = _; rw [hu])
  have hmod : (s.lCount + 1).tmod s.lSplitLines = (s.lCount + 1) % splitLines := by
    have hnonneg := h.nonneg
    rw [h.split]
    exact Int.tmod_eq_emod_of_nonneg (by omega)
  have hnext : s.asyncLog.isThreadStop = false →
      lag { u.setThread i (.lockBuf entry) with lMutex := none } n ≤ 1 + excess := by
    intro hrun
    have hle := hlag hrun
    omega
  have hnonneg := h.nonneg
  rcases count_cases counted with ⟨-, -, hwithin, rfl⟩ | ⟨-, -, rfl⟩ | ⟨-, ⟨-, -, hfull⟩, rfl⟩
  · rw [hmod] at hwithin
    have hsucc := emod_succ hsplit hwithin
    refine ⟨hidle, h.split, Int.le_add_one hnonneg, h.limit, ?_, h.stopping⟩
    intro hnull hrun newest older hfiles
    have hold := h.running hnull hrun newest older hfiles
    show _ ≤ (s.lCount + 1) % splitLines + 1 + excess
    omega
  · exact h.rotate hsplit hexcess (.daily tm) opened hidle rfl (Int.le_refl 0) (Int.zero_emod _)
      rfl rfl hnext
  · exact h.rotate hsplit hexcess _ opened hidle rfl (Int.le_add_one hnonneg) (hmod ▸ hfull)
      rfl rfl hnext

/-- While the flag is not set, the newest stream has room for the record that the writer is about
to write. -/
theorem Overrun.room (h : s.Overrun n splitLines excess) (hsplit : 1 ≤ splitLines)
    {queued : List (Entry Text)} (ho : s.asyncLog.Ordered queued) (hnull : s.isNull = false)
    (run : s.asyncLog.isThreadStop = false) {newest : LogFile Text} {older : List (LogFile Text)}
    (hfiles : s.files = newest :: older) :
    (newest.records.length + s.asyncLog.writer.tested.length : Int) ≤ splitLines + excess := by
  have hrunning := h.running hnull run newest older hfiles
  have hbacklog := ho.tested_le_backlog
  have hmod := Int.emod_lt_of_pos s.lCount (show 0 < splitLines by omega)
  unfold lag at hrunning
  omega

/-- A record is written to the newest stream. -/
theorem Overrun.fputs (h : s.Overrun n splitLines excess) (hf : s.Filed) (hsplit : 1 ≤ splitLines)
    {queued : List (Entry Text)} (ho : s.asyncLog.Ordered queued) (hnull : s.isNull = false)
    {singleLine : Entry Text} {asyncLog : AsyncLog (Entry Text)}
    (at_ : s.asyncLog.writer = .fputs singleLine)
    (moved : s.asyncLog.step .writer = some asyncLog) :
    Overrun { s with asyncLog := asyncLog, files := LogSystem.fputs singleLine s.files } n
      splitLines excess := by
  obtain ⟨newest, older, hfiles⟩ := List.exists_cons_of_ne_nil hf.some_
  have htested : s.asyncLog.writer.tested.length = 1 := by
    rw [at_]
    rfl
  have hroom : (newest.records.length + 1 : Int) ≤ splitLines + excess := by
    by_cases hstop : s.asyncLog.isThreadStop = true
    · have hstopping := h.stopping hnull hstop newest older hfiles
      omega
    · have hrunning := h.room hsplit ho hnull (Bool.eq_false_of_not_eq_true hstop) hfiles
      omega
  cases AsyncLog.step_inversion moved with
  | fputs singleLine' at_' =>
    refine ⟨h.idle, h.split, h.nonneg, ?_, ?_, ?_⟩
    · intro file hfile
      change file ∈ LogSystem.fputs singleLine s.files at hfile
      rw [hfiles] at hfile
      rcases List.mem_cons.mp hfile with rfl | hold
      · show ((newest.records ++ [singleLine]).length : Int) ≤ splitLines + excess
        rw [List.length_append]
        exact hroom
      · exact h.limit file (by rw [hfiles]; exact List.mem_cons_of_mem newest hold)
    · intro _ hrun newest' older' hfiles'
      have hold := h.running hnull hrun newest older hfiles
      change LogSystem.fputs singleLine s.files = newest' :: older' at hfiles'
      rw [hfiles] at hfiles'
      cases hfiles'
      unfold lag AsyncLog.backlog at hold
      show ((newest.records ++ [singleLine]).length : Int) + (s.inFlight n +
        (s.asyncLog.pushed.length - (s.asyncLog.lFp ++ [singleLine']).length : Int)) ≤
        s.lCount % splitLines + 1 + excess
      rw [List.length_append, List.length_append, List.length_singleton, List.length_singleton]
      omega
    · intro _ _ newest' older' hfiles'
      change LogSystem.fputs singleLine s.files = newest' :: older' at hfiles'
      rw [hfiles] at hfiles'
      cases hfiles'
      show ((newest.records ++ [singleLine]).length + 0 : Int) ≤ splitLines + excess
      rw [List.length_append, List.length_singleton]
      omega
  | empty at_' | block at_' | fail notified at_' | drop singleLine' at_' | pass singleLine' at_' =>
    rw [at_] at at_'
    cases at_'
  | take at_' some_ =>
    rw [at_] at at_'
    cases at_'

/-- A statement of a push loop. -/
theorem Overrun.call (h : s.Overrun n splitLines excess) (hl : s.Looping) {i c : Nat}
    {entry : Entry Text} (at_ : s.threads i = .loop c entry)
    (moved : s.asyncLog.step (.call c) = some t.asyncLog) {pc : LogPc Text}
    (threads : t.threads = Function.update s.threads i pc)
    (ends : pc.counted? = none ↔ ∃ pushed, t.asyncLog.calls c = .returned pushed)
    (files : t.files = s.files) (isNull : t.isNull = s.isNull) (lCount : t.lCount = s.lCount)
    (split : t.lSplitLines = s.lSplitLines) : t.Overrun n splitLines excess := by
  have hworking : i < n := h.idle.lt (by simp [at_])
  have hcall := AsyncLog.callStep_inversion (hl.calls i c entry at_) moved
  have hcount := inFlight_update hworking threads
  refine h.keep (h.idle.update hworking threads) files isNull lCount split hcall.isThreadStop ?_
    (AsyncLog.step_inversion moved).tested_le
  intro hrun
  rw [at_] at hcount
  unfold lag AsyncLog.backlog
  rw [hcall.lFp]
  cases hcall.move with
  | pushed hpushed calls =>
    rw [ends.mpr ⟨true, by rw [calls, Function.update_self]⟩] at hcount
    rw [hpushed, List.length_append, List.length_singleton]
    simp [LogPc.counted?] at hcount
    omega
  | again pc' loops hpushed calls =>
    have hgoes : pc.counted? ≠ none := by
      intro hnone
      obtain ⟨pushed, hreturned⟩ := ends.mp hnone
      rw [calls, Function.update_self] at hreturned
      rw [hreturned] at loops
      cases loops
    rw [hpushed]
    rw [Option.isSome_iff_ne_none.mpr hgoes] at hcount
    simp [LogPc.counted?] at hcount
    omega
  | gaveUp stop hpushed calls =>
    rw [stop] at hrun
    cases hrun

/-- Every step. -/
theorem Overrun.step (h : s.Overrun n splitLines excess) (hs : s.Sound) (hsplit : 1 ≤ splitLines)
    (hexcess : 0 ≤ excess) {queued : List (Entry Text)} (ho : s.asyncLog.Ordered queued)
    (hlag : ∀ i entry tm, s.threads i = .count entry tm → s.asyncLog.isThreadStop = false →
      s.lag n ≤ excess)
    (hok : ByThreads n a) (hmove : s.step a = some t) (hstep : Step s a t) :
    t.Overrun n splitLines excess := by
  cases hstep with
  | log i text tm at_ =>
    exact h.keepThread hok rfl (by rw [at_]; rfl) rfl rfl rfl rfl rfl rfl fun _ ↦ Nat.le_refl _
  | lockCount i opened entry tm at_ free | lockBuf i opened entry at_ free
  | format i opened entry at_ =>
    exact h.keepThread (h.idle.lt (by simp [at_])) rfl (by rw [at_]; rfl) rfl rfl rfl rfl rfl rfl
      fun _ ↦ Nat.le_refl _
  | count i opened entry tm u at_ counted =>
    exact h.count hsplit hexcess at_ counted (hlag i entry tm at_)
  | copy i opened entry logStr asyncLog at_ buf moved =>
    cases AsyncLog.step_inversion moved with
    | log =>
      exact h.keepThread (h.idle.lt (by simp [at_])) rfl (by rw [at_]; rfl) rfl rfl rfl rfl rfl rfl
        fun _ ↦ Nat.le_refl _
  | again i opened c entry asyncLog at_ moved alive =>
    refine h.call hs.looping at_ moved rfl ?_ rfl rfl rfl rfl
    simp [LogPc.counted?, alive]
  | finish i opened c entry pushed asyncLog at_ moved returned =>
    refine h.call hs.looping at_ moved rfl ?_ rfl rfl rfl rfl
    simp [LogPc.counted?, returned]
  | fputs singleLine asyncLog at_ free moved =>
    exact h.fputs hs.filed hsplit ho (isNull_of_fputs at_ hmove) at_ moved
  | writer asyncLog other moved =>
    have hasync := AsyncLog.step_inversion moved
    have hother := AsyncLog.otherStep_of_step moved (Or.inl rfl)
    have hlFp : asyncLog.lFp = s.asyncLog.lFp := by
      rcases AsyncLog.lFp_of_writer moved with hsame | ⟨singleLine, hat, -⟩
      · exact hsame.1
      · exact absurd hat (other singleLine)
    exact h.keep h.idle rfl rfl rfl rfl (hasync.isThreadStop_eq (by simp))
      (fun _ ↦ lag_of_same rfl hother.pushed hlFp) hasync.tested_le
  | destructor a b asyncLog which moved =>
    have hasync := AsyncLog.step_inversion moved
    have hother := AsyncLog.otherStep_of_step moved (Or.inr which)
    have hlFp := AsyncLog.lFp_of_destructor moved which
    have hsame : lag { s with asyncLog := asyncLog } n = s.lag n :=
      lag_of_same rfl hother.pushed hlFp
    by_cases hstop : asyncLog.isThreadStop = s.asyncLog.isThreadStop
    · exact h.keep h.idle rfl rfl rfl rfl hstop (fun _ ↦ hsame) hasync.tested_le
    · -- The flag is set; what is in hand still goes to the newest stream.
      cases hasync with
      | stop at_ =>
        refine ⟨h.idle, h.split, h.nonneg, h.limit, fun _ hrun ↦ (by cases hrun), ?_⟩
        intro hnull _ newest older hfiles
        have hrun : s.asyncLog.isThreadStop = false := by
          apply Bool.eq_false_of_not_eq_true
          intro hset
          exact hstop hset.symm
        exact h.room hsplit ho hnull hrun hfiles
      | log | pushed | refused | retry | empty | block | take | fail | drop | pass | fputs
      | destroy | notify | join => exact absurd rfl hstop

/-- Before the first step. -/
theorem overrun_init (cells : Int → Entry Text) (bufferQueueSize : Int) (name : FileName)
    (today : Int) (hsplit : 1 ≤ splitLines) (hexcess : 0 ≤ excess) :
    (init cells bufferQueueSize splitLines name today).Overrun n splitLines excess := by
  have hnone : (init cells bufferQueueSize splitLines name today).inFlight n = 0 :=
    Nat.count_false n
  refine ⟨fun _ _ ↦ rfl, rfl, Int.le_refl 0, ?_, ?_, fun _ hstop ↦ by cases hstop⟩
  · intro file hfile
    rw [List.mem_singleton.mp hfile]
    show (0 : Int) ≤ splitLines + excess
    omega
  · intro _ _ newest older hfiles
    cases hfiles
    unfold lag
    rw [hnone]
    show (0 : Int) + (0 + 0) ≤ 0 % splitLines + 1 + excess
    rw [Int.zero_emod]
    omega

end LogSystem

/-- When only the first `n` threads log, no stream receives more than `l_split_lines` records and
as many again as there are threads and cells in the queue. -/
theorem no_stream_exceeds_by_more {cells : Int → Entry Text} {bufferQueueSize splitLines : Int}
    {name : FileName} {today : Int} {n : Nat} {s : LogSystem Text} (hsize : 1 ≤ bufferQueueSize)
    (hsplit : 1 ≤ splitLines)
    (h : ReachBy LogSystem.step (fun _ a ↦ LogSystem.ByThreads n a)
      (.init cells bufferQueueSize splitLines name today) s) :
    ∀ file ∈ s.files, (file.records.length : Int) ≤ splitLines + (n + bufferQueueSize) := by
  have hinv : Reach LogSystem.step (.init cells bufferQueueSize splitLines name today) s ∧
      s.Overrun n splitLines (n + bufferQueueSize) := by
    apply h.invariant (P := fun s ↦ Reach LogSystem.step
      (.init cells bufferQueueSize splitLines name today) s ∧
      s.Overrun n splitLines (n + bufferQueueSize))
    · exact ⟨.refl, LogSystem.overrun_init cells bufferQueueSize name today hsplit (by omega)⟩
    · intro s a t hs hok hstep
      obtain ⟨hreach, hover⟩ := hs
      have hasync := LogSystem.refines_asyncLog hreach
      obtain ⟨queued, hordered⟩ := AsyncLog.ordered_of_reach hsize hasync
      refine ⟨hreach.tail a trivial hstep, hover.step (LogSystem.sound_of_reach hreach) hsplit
        (by omega) hordered ?_ hok hstep (LogSystem.step_inversion hstep)⟩
      -- The thread that counts is not in flight itself.
      intro i entry tm at_ hrun
      have hworking : i < n := hover.idle.lt (by simp [at_])
      have hothers := LogSystem.inFlight_lt hworking (by rw [at_]; rfl)
      have hbacklog := AsyncLog.backlog_le hsize hasync hrun
      unfold LogSystem.lag
      omega
  exact hinv.2.limit

/-- The fourth of five calls rotates with one record in hand and one in the queue. -/
def rotationBehind : List (LogSystemAction Nat) :=
  .flatten [logOnce 1, .replicate 3 .writer, logOnce 2, [.writer], logOnce 3, (logOnce 4).take 3,
    .replicate 5 .writer, (logOnce 4).drop 3, .replicate 3 .writer, logOnce 5,
    .replicate 3 .writer]

/-- The part that it opens receives four records: two that it may have, one for the thread, and
one for the cell of the queue. -/
theorem part_gets_four_of_two :
    ∃ s, run LogSystem.step (.init (fun _ ↦ ⟨0, 0, 0⟩) 1 2 (.daily ⟨2024, 1, 1⟩) 1)
        rotationBehind = some s ∧ (∃ file ∈ s.files, file.records.length = 4) ∧
      ∀ file ∈ s.files, (file.records.length : Int) ≤ 2 + ((1 : Nat) + 1) := by
  have hrun : (run LogSystem.step (.init (fun _ ↦ ⟨0, 0, 0⟩) 1 2 (.daily ⟨2024, 1, 1⟩) 1)
      rotationBehind).isSome := by
    decide +kernel
  have hok : Admits LogSystem.step (fun _ a ↦ LogSystem.ByThreads 1 a)
      (.init (fun _ ↦ ⟨0, 0, 0⟩) 1 2 (.daily ⟨2024, 1, 1⟩) 1) rotationBehind := by
    decide +kernel
  have hfour : ∀ t ∈ run LogSystem.step
      (.init (fun _ ↦ ⟨0, 0, 0⟩) 1 2 (.daily ⟨2024, 1, 1⟩) 1) rotationBehind,
      ∃ file ∈ t.files, file.records.length = 4 := by
    decide +kernel
  obtain ⟨s, hs⟩ := Option.isSome_iff_exists.mp hrun
  exact ⟨s, hs, hfour s hs,
    no_stream_exceeds_by_more (by decide) (by decide) (reachBy_of_run hs hok)⟩

end ConcurrentServer.Log
