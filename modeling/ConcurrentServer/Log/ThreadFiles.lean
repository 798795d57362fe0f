import ConcurrentServer.Log.StreamUse

/-!
# The files of the logging threads

`src/log/log.cpp:153–217`, `src/log/log.h:73–77`. Every run of the threads that log and of the
writer is, as far as count, day and files go, a run of the critical sections of `LogFiles`. So
what holds of those in any order holds with any number of threads and a queue.
-/

namespace ConcurrentServer.Log
open ConcurrentServer.Base

variable {Text : Type}

/-- A stream without its state. -/
def LogStream.toFile (stream : LogStream (Entry Text)) : LogFile Text :=
  ⟨stream.name, stream.records⟩

/-- The logger of the threads has these files; the newest is the current one unless `l_fp` is
null. -/
structure LogSystem.Shows (s : LogSystem Text) (files : LogFiles (Entry Text)) : Prop where
  lCount : files.lCount = s.lCount
  lToday : files.lToday = s.lToday
  lSplitLines : files.lSplitLines = s.lSplitLines
  streams : files.streams.map LogStream.toFile = s.files.reverse
  current : s.isNull = false → ∃ older stream, files.streams = older ++ [stream] ∧
    files.Current older.length stream
  null : s.isNull = true → files.lFp = none

namespace LogSystem

variable {s t : LogSystem Text} {a : LogSystemAction Text} {files : LogFiles (Entry Text)}

/-- What the files depend on stays. -/
theorem Shows.keep (h : s.Shows files) (lCount : t.lCount = s.lCount)
    (lToday : t.lToday = s.lToday) (lSplitLines : t.lSplitLines = s.lSplitLines)
    (same : t.files = s.files) (isNull : t.isNull = s.isNull) : t.Shows files := by
  constructor
  · rw [lCount]
    exact h.lCount
  · rw [lToday]
    exact h.lToday
  · rw [lSplitLines]
    exact h.lSplitLines
  · rw [same]
    exact h.streams
  · rw [isNull]
    exact h.current
  · rw [isNull]
    exact h.null

/-- A rotation, seen in the files. -/
theorem Shows.fopen (h : s.Shows files) {older : List (LogStream (Entry Text))}
    {stream : LogStream (Entry Text)} (streams : files.streams = older ++ [stream])
    (lCount lToday : Int) (name : FileName) (opened : Bool) :
    Shows { s with
        lCount := lCount
        lToday := lToday
        files := if opened then ⟨name, []⟩ :: s.files else s.files
        isNull := !opened }
      (LogFiles.fopen { files with
        lCount := lCount
        lToday := lToday
        streams := files.closed older.length stream } name opened) := by
  have hclosed : (files.closed older.length stream).map LogStream.toFile = s.files.reverse := by
    rw [← h.streams, LogFiles.closed, streams, List.set_append, if_neg (Nat.lt_irrefl _),
      Nat.sub_self, List.map_append, List.map_append]
    rfl
  cases opened with
  | false =>
    constructor
    · rfl
    · rfl
    · exact h.lSplitLines
    · exact hclosed
    · intro hnull
      cases hnull
    · intro _
      rfl
  | true =>
    constructor
    · rfl
    · rfl
    · exact h.lSplitLines
    · show (files.closed older.length stream ++ [_]).map LogStream.toFile =
        (_ :: s.files).reverse
      rw [List.map_append, hclosed, List.reverse_cons]
      rfl
    · intro _
      exact ⟨files.closed older.length stream, _, rfl, LogFiles.current_fopen _ name⟩
    · intro hnull
      cases hnull

/-- The count of a call is the first critical section of the files. -/
theorem Shows.count (h : s.Shows files) {tm : MyTime} {opened : Bool} {u : LogSystem Text}
    (counted : s.count tm opened = some u) :
    ∃ files', LogFiles.Step files (.count tm opened) files' ∧ u.Shows files' := by
  rcases count_cases counted with ⟨hday, hsplit, hwithin, rfl⟩ | ⟨hnull, hday, rfl⟩ |
    ⟨hnull, ⟨hday, hsplit, hfull⟩, rfl⟩
  · rw [← h.lToday] at hday
    rw [← h.lSplitLines] at hsplit
    rw [← h.lCount, ← h.lSplitLines] at hwithin
    refine ⟨_, .stay tm opened ⟨hday, hsplit, hwithin⟩, ?_⟩
    constructor
    · show files.lCount + 1 = s.lCount + 1
      rw [h.lCount]
    · exact h.lToday
    · exact h.lSplitLines
    · exact h.streams
    · intro hnull
      obtain ⟨older, stream, hstreams, hcurrent⟩ := h.current hnull
      exact ⟨older, stream, hstreams, hcurrent.lFp, hcurrent.at_, hcurrent.isOpen⟩
    · exact h.null
  · obtain ⟨older, stream, hstreams, hcurrent⟩ := h.current hnull
    rw [← h.lToday] at hday
    exact ⟨_, .newDay tm opened _ stream hcurrent hday, h.fopen hstreams 0 tm.day _ opened⟩
  · obtain ⟨older, stream, hstreams, hcurrent⟩ := h.current hnull
    rw [← h.lToday] at hday
    rw [← h.lSplitLines] at hsplit
    rw [← h.lCount, ← h.lSplitLines] at hfull
    refine ⟨_, .newPart tm opened _ stream hcurrent hday hsplit hfull, ?_⟩
    have hshows := h.fopen hstreams (s.lCount + 1) s.lToday
      (.part tm ((s.lCount + 1).tdiv s.lSplitLines)) opened
    rw [← h.lCount, ← h.lToday, ← h.lSplitLines] at hshows ⊢
    exact hshows

/-- The writer's `fputs` is that of the files. -/
theorem Shows.fputs (h : s.Shows files) (hnull : s.isNull = false) (singleLine : Entry Text)
    (asyncLog : AsyncLog (Entry Text)) :
    ∃ files', LogFiles.Step files (.fputs singleLine) files' ∧
      Shows { s with asyncLog := asyncLog, files := LogSystem.fputs singleLine s.files }
        files' := by
  obtain ⟨older, stream, hstreams, hcurrent⟩ := h.current hnull
  have hset : ∀ new, files.streams.set older.length new = older ++ [new] := by
    intro new
    rw [hstreams]
    exact set_length_append_singleton older stream new
  have hfiles : s.files = stream.toFile :: (older.map LogStream.toFile).reverse := by
    have hreverse := h.streams
    rw [hstreams, List.map_append] at hreverse
    rw [← List.reverse_reverse s.files, ← hreverse, List.reverse_append]
    rfl
  refine ⟨_, .fputs singleLine older.length stream hcurrent, ?_⟩
  constructor
  · exact h.lCount
  · exact h.lToday
  · exact h.lSplitLines
  · show (files.streams.set older.length _).map LogStream.toFile =
      (LogSystem.fputs singleLine s.files).reverse
    rw [hset, hfiles]
    simp [LogSystem.fputs, LogStream.toFile]
  · intro _
    exact ⟨older, _, hset _, hcurrent.write _⟩
  · intro hopen
    rw [hnull] at hopen
    cases hopen

/-- Every step of the threads is a critical section of the files, or leaves them. -/
theorem Shows.step (h : s.Shows files) (hmove : s.step a = some t) :
    ∃ files', t.Shows files' ∧
      (files' = files ∨ ∃ b, files.step b = some files') := by
  cases step_inversion hmove with
  | log | lockCount | lockBuf | format | copy | again | finish | writer | destructor =>
    exact ⟨files, h.keep rfl rfl rfl rfl rfl, Or.inl rfl⟩
  | count i opened entry tm u at_ counted =>
    obtain ⟨files', hstep, hu⟩ := h.count counted
    exact ⟨files', hu.keep rfl rfl rfl rfl rfl, Or.inr ⟨_, LogFiles.step_iff.mpr hstep⟩⟩
  | fputs singleLine asyncLog at_ free moved =>
    have hnull := isNull_of_fputs at_ hmove
    obtain ⟨files', hstep, ht⟩ := h.fputs hnull singleLine asyncLog
    exact ⟨files', ht, Or.inr ⟨_, LogFiles.step_iff.mpr hstep⟩⟩

end LogSystem

/-- What the threads that log, the writer and the destructor do to the files is one of the runs
of the critical sections. -/
theorem LogSystem.refines_logFiles {cells : Int → Entry Text}
    {bufferQueueSize splitLines : Int} {fileName : Option (List Char)} {tm : MyTime}
    {start : LogFiles (Entry Text)} {s : LogSystem Text}
    (hinit : LogFiles.init fileName splitLines tm true = .ok (some start))
    (h : Reach LogSystem.step (.init cells bufferQueueSize splitLines
      (if fileName.isNone then .stdout else .daily tm) tm.day) s) :
    ∃ files, Reach LogFiles.step start files ∧ s.Shows files := by
  apply h.invariant (P := fun s ↦ ∃ files, Reach LogFiles.step start files ∧ s.Shows files)
  · obtain ⟨dirName, baseName, rfl⟩ := LogFiles.eq_of_init hinit
    refine ⟨_, .refl, rfl, rfl, rfl, rfl, ?_, ?_⟩
    · intro _
      exact ⟨[], _, rfl, rfl, rfl, rfl⟩
    · intro hnull
      cases hnull
  · rintro s a t ⟨files, hreach, hs⟩ _ hstep
    obtain ⟨files', ht, rfl | ⟨b, hb⟩⟩ := hs.step hstep
    · exact ⟨files', hreach, ht⟩
    · exact ⟨files', hreach.tail b trivial hb, ht⟩

end ConcurrentServer.Log
