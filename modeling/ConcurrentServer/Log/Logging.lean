import ConcurrentServer.Log.WriterStep
import Mathlib.Data.List.Basic

/-!
# Logging threads

`src/log/log.cpp:153–217`, `src/log/log.h:63–78`, for a logger that was initialised with a queue.
Any number of threads call `write_log`: a call counts the record and opens a new file when it has
to, formats the record in the buffer that all calls share, copies it, and pushes it until the
queue takes it. A step is one statement; what a critical section of `l_mutex` does with the
count and the files is one statement, and so is the `fputs` of the writer. `AsyncLog` is what this
system does from the push loop on.
-/

namespace ConcurrentServer.Log
open ConcurrentServer.Base

variable {Text : Type}

/-- A formatted record, with the thread that logged it and the number of its call there. -/
structure Entry (Text : Type) where
  thread : Nat
  call : Nat
  text : Text
  deriving DecidableEq, Repr

/-- The date in `my_time`; `src/log/log.cpp:20–28`. The time of day is part of the text. -/
structure MyTime where
  year : Int
  month : Int
  day : Int
  deriving DecidableEq, Repr

/-- What a stream was opened for: `prefix` and `l_file_name`, and behind them the number of the
part. -/
inductive FileName
  | stdout
  | daily (tm : MyTime)
  | part (tm : MyTime) (number : Int)
  deriving DecidableEq, Repr

/-- A stream and what was written to it. -/
structure LogFile (Text : Type) where
  name : FileName
  records : List (Entry Text)
  deriving DecidableEq, Repr

/-- Where a logging thread is in `write_log`. -/
inductive LogPc (Text : Type)
  /-- Not in a call. -/
  | idle
  /-- Before `l_mutex` is taken for the count. -/
  | lockCount (entry : Entry Text) (tm : MyTime)
  /-- Before `l_count++`, holding `l_mutex`. -/
  | count (entry : Entry Text) (tm : MyTime)
  /-- Before `l_mutex` is taken for the buffer. -/
  | lockBuf (entry : Entry Text)
  /-- Before the record is formatted in `l_buf`, holding `l_mutex`. -/
  | format (entry : Entry Text)
  /-- Before `log_str = l_buf`, holding `l_mutex`. -/
  | copy (entry : Entry Text)
  /-- In the push loop, which is call `c` of the asynchronous logger. -/
  | loop (c : Nat) (entry : Entry Text)
  deriving DecidableEq, Repr

namespace LogPc

/-- The thread holds `l_mutex`. -/
def holds : LogPc Text → Bool
  | .count _ _ | .format _ | .copy _ => true
  | .idle | .lockCount _ _ | .lockBuf _ | .loop _ _ => false

/-- The record of the call that the thread is in. -/
def record? : LogPc Text → Option (Entry Text)
  | .lockCount entry _ | .count entry _ | .lockBuf entry | .format entry | .copy entry
  | .loop _ entry => some entry
  | .idle => none

end LogPc

/-- The logger and the threads that log. `files` are the streams that were opened, the newest
first, and `l_fp` is the newest unless it is null. -/
structure LogSystem (Text : Type) where
  asyncLog : AsyncLog (Entry Text)
  lMutex : Option Nat
  lBuf : Option (Entry Text)
  lCount : Int
  lToday : Int
  lSplitLines : Int
  files : List (LogFile Text)
  isNull : Bool
  threads : Nat → LogPc Text
  /-- The number of push loops that have been entered. -/
  loops : Nat
  /-- The records that each thread has logged, in order. -/
  logged : Nat → List (Entry Text)

/-- What can happen next. -/
inductive LogSystemAction (Text : Type)
  /-- Thread `i` calls `write_log`, and the clock reads `tm`. -/
  | log (i : Nat) (text : Text) (tm : MyTime)
  /-- The next statement of thread `i`; `opened` says whether `fopen` succeeds. -/
  | thread (i : Nat) (opened : Bool)
  /-- The next statement of the writer, or the end of its wait. -/
  | writer
  /-- The destructor begins. -/
  | destroy
  /-- The next statement of the destructor. -/
  | destructor
  deriving DecidableEq, Repr

namespace LogSystem

/-- After an `init` that returned `true`; `src/log/log.cpp:75–151`. -/
def init (cells : Int → Entry Text) (bufferQueueSize splitLines : Int) (name : FileName)
    (today : Int) : LogSystem Text where
  asyncLog := .init cells bufferQueueSize
  lMutex := none
  lBuf := none
  lCount := 0
  lToday := today
  lSplitLines := splitLines
  files := [⟨name, []⟩]
  isNull := false
  threads := fun _ ↦ .idle
  loops := 0
  logged := fun _ ↦ []

/-- Thread `i` moves on. -/
def setThread (s : LogSystem Text) (i : Nat) (pc : LogPc Text) : LogSystem Text :=
  { s with threads := Function.update s.threads i pc }

/-- `l_count++` and the rotation; `src/log/log.cpp:159–182`. `none` is the division by zero, and
the `fclose` of a null stream. -/
def count (s : LogSystem Text) (tm : MyTime) (opened : Bool) : Option (LogSystem Text) :=
  let lCount := s.lCount + 1
  if s.lToday ≠ tm.day then
    if s.isNull then none
    else some { s with
      lCount := 0
      lToday := tm.day
      files := if opened then ⟨.daily tm, []⟩ :: s.files else s.files
      isNull := !opened }
  else if s.lSplitLines = 0 then none
  else if lCount.tmod s.lSplitLines = 0 then
    if s.isNull then none
    else some { s with
      lCount := lCount
      files :=
        if opened then ⟨.part tm (lCount.tdiv s.lSplitLines), []⟩ :: s.files else s.files
      isNull := !opened }
  else some { s with lCount := lCount }

/-- `write_log`; `src/log/log.cpp:153–217`. -/
def threadStep (s : LogSystem Text) (i : Nat) (opened : Bool) : Option (LogSystem Text) :=
  match s.threads i with
  | .lockCount entry tm =>
    if s.lMutex = none then some { s.setThread i (.count entry tm) with lMutex := some i }
    else none
  | .count entry tm =>
    (s.count tm opened).map fun s ↦ { s.setThread i (.lockBuf entry) with lMutex := none }
  | .lockBuf entry =>
    if s.lMutex = none then some { s.setThread i (.format entry) with lMutex := some i } else none
  | .format entry => some { s.setThread i (.copy entry) with lBuf := some entry }
  | .copy _ =>
    match s.lBuf with
    | none => none
    | some logStr =>
      (s.asyncLog.step (.log s.loops logStr)).map fun asyncLog ↦
        { s.setThread i (.loop s.loops logStr) with
          asyncLog := asyncLog
          lMutex := none
          loops := s.loops + 1 }
  | .loop c entry =>
    (s.asyncLog.step (.call c)).map fun asyncLog ↦
      match asyncLog.calls c with
      | .returned _ => { s.setThread i .idle with asyncLog := asyncLog }
      | _ => { s.setThread i (.loop c entry) with asyncLog := asyncLog }
  | .idle => none

/-- `fputs` to the newest stream. -/
def fputs (singleLine : Entry Text) : List (LogFile Text) → List (LogFile Text)
  | [] => []
  | file :: files => { file with records := file.records ++ [singleLine] } :: files

/-- `async_write`; the writer takes `l_mutex` for its `fputs`. -/
def writerStep (s : LogSystem Text) : Option (LogSystem Text) :=
  match s.asyncLog.writer with
  | .fputs singleLine =>
    if s.lMutex = none ∧ s.isNull = false then
      (s.asyncLog.step .writer).map fun asyncLog ↦
        { s with asyncLog := asyncLog, files := fputs singleLine s.files }
    else none
  | _ => (s.asyncLog.step .writer).map fun asyncLog ↦ { s with asyncLog := asyncLog }

/-- The step function. Nothing runs after the destructor has returned. -/
def step (s : LogSystem Text) (a : LogSystemAction Text) : Option (LogSystem Text) :=
  if s.asyncLog.destructor = .returned then none
  else match a with
    | .log i text tm =>
      match s.threads i with
      | .idle =>
        let entry : Entry Text := ⟨i, (s.logged i).length, text⟩
        some { s.setThread i (.lockCount entry tm) with
          logged := Function.update s.logged i (s.logged i ++ [entry]) }
      | _ => none
    | .thread i opened => s.threadStep i opened
    | .writer => s.writerStep
    | .destroy => (s.asyncLog.step .destroy).map fun asyncLog ↦ { s with asyncLog := asyncLog }
    | .destructor =>
      (s.asyncLog.step .destructor).map fun asyncLog ↦ { s with asyncLog := asyncLog }

/-! ### Steps -/

/-- The statements of the threads at work. -/
inductive Step (s : LogSystem Text) : LogSystemAction Text → LogSystem Text → Prop
  | log (i : Nat) (text : Text) (tm : MyTime) (at_ : s.threads i = .idle) :
    Step s (.log i text tm)
      { s.setThread i (.lockCount ⟨i, (s.logged i).length, text⟩ tm) with
        logged := Function.update s.logged i (s.logged i ++ [⟨i, (s.logged i).length, text⟩]) }
  | lockCount (i : Nat) (opened : Bool) (entry : Entry Text) (tm : MyTime)
    (at_ : s.threads i = .lockCount entry tm) (free : s.lMutex = none) :
    Step s (.thread i opened) { s.setThread i (.count entry tm) with lMutex := some i }
  | count (i : Nat) (opened : Bool) (entry : Entry Text) (tm : MyTime) (u : LogSystem Text)
    (at_ : s.threads i = .count entry tm) (counted : s.count tm opened = some u) :
    Step s (.thread i opened) { u.setThread i (.lockBuf entry) with lMutex := none }
  | lockBuf (i : Nat) (opened : Bool) (entry : Entry Text)
    (at_ : s.threads i = .lockBuf entry) (free : s.lMutex = none) :
    Step s (.thread i opened) { s.setThread i (.format entry) with lMutex := some i }
  | format (i : Nat) (opened : Bool) (entry : Entry Text) (at_ : s.threads i = .format entry) :
    Step s (.thread i opened) { s.setThread i (.copy entry) with lBuf := some entry }
  | copy (i : Nat) (opened : Bool) (entry logStr : Entry Text) (asyncLog : AsyncLog (Entry Text))
    (at_ : s.threads i = .copy entry) (buf : s.lBuf = some logStr)
    (moved : s.asyncLog.step (.log s.loops logStr) = some asyncLog) :
    Step s (.thread i opened)
      { s.setThread i (.loop s.loops logStr) with
        asyncLog := asyncLog
        lMutex := none
        loops := s.loops + 1 }
  | again (i : Nat) (opened : Bool) (c : Nat) (entry : Entry Text)
    (asyncLog : AsyncLog (Entry Text)) (at_ : s.threads i = .loop c entry)
    (moved : s.asyncLog.step (.call c) = some asyncLog)
    (alive : ∀ pushed, asyncLog.calls c ≠ .returned pushed) :
    Step s (.thread i opened) { s.setThread i (.loop c entry) with asyncLog := asyncLog }
  | finish (i : Nat) (opened : Bool) (c : Nat) (entry : Entry Text) (pushed : Bool)
    (asyncLog : AsyncLog (Entry Text)) (at_ : s.threads i = .loop c entry)
    (moved : s.asyncLog.step (.call c) = some asyncLog)
    (returned : asyncLog.calls c = .returned pushed) :
    Step s (.thread i opened) { s.setThread i .idle with asyncLog := asyncLog }
  | fputs (singleLine : Entry Text) (asyncLog : AsyncLog (Entry Text))
    (at_ : s.asyncLog.writer = .fputs singleLine) (free : s.lMutex = none)
    (moved : s.asyncLog.step .writer = some asyncLog) :
    Step s .writer { s with asyncLog := asyncLog, files := fputs singleLine s.files }
  | writer (asyncLog : AsyncLog (Entry Text))
    (other : ∀ singleLine, s.asyncLog.writer ≠ .fputs singleLine)
    (moved : s.asyncLog.step .writer = some asyncLog) :
    Step s .writer { s with asyncLog := asyncLog }
  | destructor (a : LogSystemAction Text) (b : LogAction (Entry Text))
    (asyncLog : AsyncLog (Entry Text)) (which : b = .destroy ∨ b = .destructor)
    (moved : s.asyncLog.step b = some asyncLog) : Step s a { s with asyncLog := asyncLog }

variable {s t : LogSystem Text} {a : LogSystemAction Text}

/-- Steps of a logging thread. -/
theorem step_of_threadStep {i : Nat} {opened : Bool} (h : s.threadStep i opened = some t) :
    Step s (.thread i opened) t := by
  unfold threadStep at h
  split at h
  · rename_i entry tm at_
    split at h
    · rename_i free
      cases h
      exact .lockCount i opened entry tm at_ free
    · cases h
  · rename_i entry tm at_
    obtain ⟨u, hu, rfl⟩ := Option.map_eq_some_iff.mp h
    exact .count i opened entry tm u at_ hu
  · rename_i entry at_
    split at h
    · rename_i free
      cases h
      exact .lockBuf i opened entry at_ free
    · cases h
  · rename_i entry at_
    cases h
    exact .format i opened entry at_
  · rename_i entry at_
    split at h
    · cases h
    · rename_i logStr buf
      obtain ⟨asyncLog, hmoved, rfl⟩ := Option.map_eq_some_iff.mp h
      exact .copy i opened entry logStr asyncLog at_ buf hmoved
  · rename_i c entry at_
    obtain ⟨asyncLog, hmoved, hafter⟩ := Option.map_eq_some_iff.mp h
    split at hafter
    · rename_i pushed hreturned
      cases hafter
      exact .finish i opened c entry pushed asyncLog at_ hmoved hreturned
    · rename_i hother
      cases hafter
      exact .again i opened c entry asyncLog at_ hmoved hother
  · cases h

/-- Steps of the writer. -/
theorem step_of_writerStep (h : s.writerStep = some t) : Step s .writer t := by
  unfold writerStep at h
  split at h
  · rename_i singleLine at_
    split at h
    · rename_i free
      obtain ⟨asyncLog, hmoved, rfl⟩ := Option.map_eq_some_iff.mp h
      exact .fputs singleLine asyncLog at_ free.1 hmoved
    · cases h
  · rename_i other
    obtain ⟨asyncLog, hmoved, rfl⟩ := Option.map_eq_some_iff.mp h
    exact .writer asyncLog other hmoved

/-- Every step is one of these. -/
theorem step_inversion (h : s.step a = some t) : Step s a t := by
  unfold step at h
  split at h
  · cases h
  cases a with
  | log i text tm =>
    simp only at h
    split at h
    · rename_i at_
      cases h
      exact .log i text tm at_
    · cases h
  | thread i opened => exact step_of_threadStep h
  | writer => exact step_of_writerStep h
  | destroy =>
    obtain ⟨asyncLog, hmoved, rfl⟩ := Option.map_eq_some_iff.mp h
    exact .destructor .destroy .destroy asyncLog (Or.inl rfl) hmoved
  | destructor =>
    obtain ⟨asyncLog, hmoved, rfl⟩ := Option.map_eq_some_iff.mp h
    exact .destructor .destructor .destructor asyncLog (Or.inr rfl) hmoved

/-- The count without a rotation, with one to a new day, and with one to a new part. -/
theorem count_cases {tm : MyTime} {opened : Bool} (h : s.count tm opened = some t) :
    (s.lToday = tm.day ∧ s.lSplitLines ≠ 0 ∧ (s.lCount + 1).tmod s.lSplitLines ≠ 0 ∧
      t = { s with lCount := s.lCount + 1 }) ∨
    (s.isNull = false ∧ s.lToday ≠ tm.day ∧
      t = { s with
        lCount := 0
        lToday := tm.day
        files := if opened then ⟨.daily tm, []⟩ :: s.files else s.files
        isNull := !opened }) ∨
    (s.isNull = false ∧ (s.lToday = tm.day ∧ s.lSplitLines ≠ 0 ∧
        (s.lCount + 1).tmod s.lSplitLines = 0) ∧
      t = { s with
        lCount := s.lCount + 1
        files :=
          if opened then ⟨.part tm ((s.lCount + 1).tdiv s.lSplitLines), []⟩ :: s.files
          else s.files
        isNull := !opened }) := by
  unfold count at h
  simp only at h
  split at h
  · rename_i hday
    split at h
    · cases h
    · rename_i hnull
      cases h
      exact Or.inr (Or.inl ⟨eq_false_of_ne_true hnull, hday, rfl⟩)
  · rename_i hday
    have htoday : s.lToday = tm.day := not_not.mp hday
    split at h
    · cases h
    · rename_i hsplit
      split at h
      · rename_i hfull
        split at h
        · cases h
        · rename_i hnull
          cases h
          exact Or.inr (Or.inr ⟨eq_false_of_ne_true hnull, ⟨htoday, hsplit, hfull⟩, rfl⟩)
      · rename_i hwithin
        cases h
        exact Or.inl ⟨htoday, hsplit, hwithin, rfl⟩

/-- What the count changes. -/
theorem count_eq_some {tm : MyTime} {opened : Bool} (h : s.count tm opened = some t) :
    ∃ file : List (LogFile Text), (∀ f ∈ file, f.records = []) ∧
      t = { s with
        lCount := t.lCount
        lToday := t.lToday
        files := file ++ s.files
        isNull := t.isNull } := by
  rcases count_cases h with ⟨-, -, -, rfl⟩ | ⟨-, -, rfl⟩ | ⟨-, -, rfl⟩
  · exact ⟨[], by simp, rfl⟩
  · cases opened with
    | false => exact ⟨[], by simp, rfl⟩
    | true => exact ⟨[⟨.daily tm, []⟩], by simp, rfl⟩
  · cases opened with
    | false => exact ⟨[], by simp, rfl⟩
    | true => exact ⟨[⟨.part tm ((s.lCount + 1).tdiv s.lSplitLines), []⟩], by simp, rfl⟩

/-- The count moves no other thread than the one that counts. -/
theorem threads_count {tm : MyTime} {opened : Bool} {u : LogSystem Text}
    (h : s.count tm opened = some u) (i : Nat) (pc : LogPc Text) :
    Function.update u.threads i pc = Function.update s.threads i pc := by
  obtain ⟨file, -, hu⟩ := count_eq_some h
  rw [hu]

/-- The writer writes to an open file only. -/
theorem isNull_of_fputs {singleLine : Entry Text} (at_ : s.asyncLog.writer = .fputs singleLine)
    (h : s.step .writer = some t) : s.isNull = false := by
  unfold step at h
  split at h
  · cases h
  · simp only [writerStep, at_] at h
    split at h
    · rename_i hfree
      exact hfree.2
    · cases h

/-- A step of the system is a step of the asynchronous logger, or leaves it. -/
theorem asyncLog_step (hstep : Step s a t) :
    t.asyncLog = s.asyncLog ∨ ∃ b, s.asyncLog.step b = some t.asyncLog := by
  cases hstep with
  | log | lockCount | lockBuf | format => exact Or.inl rfl
  | count i opened entry tm u at_ counted =>
    obtain ⟨file, -, hu⟩ := count_eq_some counted
    left
    show u.asyncLog = s.asyncLog
    rw [hu]
  | copy i opened entry logStr asyncLog at_ buf moved => exact Or.inr ⟨_, moved⟩
  | again i opened c entry asyncLog at_ moved alive => exact Or.inr ⟨_, moved⟩
  | finish i opened c entry pushed asyncLog at_ moved returned => exact Or.inr ⟨_, moved⟩
  | fputs singleLine asyncLog at_ free moved => exact Or.inr ⟨_, moved⟩
  | writer asyncLog other moved => exact Or.inr ⟨_, moved⟩
  | destructor a b asyncLog which moved => exact Or.inr ⟨_, moved⟩

end LogSystem

/-- What the threads that log make of the asynchronous logger is one of its runs. -/
theorem LogSystem.refines_asyncLog {cells : Int → Entry Text} {bufferQueueSize splitLines : Int}
    {name : FileName} {today : Int} {s : LogSystem Text}
    (h : Reach LogSystem.step (.init cells bufferQueueSize splitLines name today) s) :
    Reach AsyncLog.step (.init cells bufferQueueSize) s.asyncLog :=
  h.simulate LogSystem.asyncLog fun _ _ _ hstep ↦
    LogSystem.asyncLog_step (LogSystem.step_inversion hstep)

end ConcurrentServer.Log
