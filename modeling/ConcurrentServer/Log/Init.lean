import ConcurrentServer.Log.FileNames
import ConcurrentServer.Log.Record

/-!
# Initialising the logger

`src/log/log.cpp:75–151`, `src/log/log.h:80–96, 107–113`. The logger is a static object, so all of
it is zero before the first `init`. `init` sets the mode, the queue with its thread, the sizes and
the names before it can fail, and a failure takes nothing back. Memory does not run out, and threads
can be started.
-/

namespace ConcurrentServer.Log
open ConcurrentServer.Base

/-- The arguments of `Logger::init`. -/
structure InitArgs where
  fileName : Option CText
  bufferQueueSize : Int
  /-- A value of the enumeration, which also has `NUM_LOG_LEVELS`. -/
  level : Int
  bufferSize : Int
  splitLines : Int
  deriving DecidableEq

/-- What the clock reads, and whether `fopen` succeeds. -/
structure InitEnv where
  tm : MyTime
  opened : Bool

/-- How a call ends. -/
inductive InitEnd
  | returned (ret : Bool)
  | invalidArgument (what : String)
  | badArrayNewLength
  deriving DecidableEq, Repr

/-- What `l_fp` points to. -/
inductive InitFp
  | stdout
  | file (path : List Char)
  deriving DecidableEq, Repr

/-- The writer threads and what they work on. -/
structure WriterSetup where
  lIsAsync : Bool
  lBufferQueue : Option (BufferQueue (List Char))
  /-- The number of the thread that `l_asyncw_thread` points to. -/
  lAsyncwThread : Option Nat
  /-- How many threads have been started. -/
  started : Nat

/-- `Logger`, with `g_log_level`; `src/log/log.h:80–99`. -/
structure Logger where
  lDirName : Int → Char
  lFileName : Int → Char
  lSplitLines : Int
  lBufSize : Int
  lToday : Int
  lFp : Option InitFp
  lBuf : Option (Int → Char)
  lInited : Bool
  lIsStdout : Bool
  writer : WriterSetup
  gLogLevel : LogLevel

/-- The level that an `int` stands for; `none` if the assertion of `set_log_level` fails;
`src/log/log.h:107–113`. -/
def LogLevel.ofInt : Int → Option LogLevel
  | 0 => some .error
  | 1 => some .warn
  | 2 => some .info
  | 3 => some .debug
  | _ => none

/-- A new queue and a new thread if there is to be a queue; `src/log/log.cpp:98–103`. -/
def WriterSetup.start (w : WriterSetup) (bufferQueueSize : Int) : WriterSetup :=
  if 1 ≤ bufferQueueSize then
    ⟨true, some (.fresh (fun _ ↦ []) bufferQueueSize false), some w.started, w.started + 1⟩
  else w

/-- The text of `file_name`; it is not used if that is null. -/
def InitArgs.name (a : InitArgs) : List Char := (a.fileName.map Subtype.val).getD []

namespace Logger

/-- A logger before the first `init`. -/
def fresh : Logger where
  lDirName := fun _ ↦ nul
  lFileName := fun _ ↦ nul
  lSplitLines := 0
  lBufSize := 0
  lToday := 0
  lFp := none
  lBuf := none
  lInited := false
  lIsStdout := false
  writer := ⟨false, none, none, 0⟩
  gLogLevel := .info

/-- The names are copied, `l_dir_name` without a terminator; `src/log/log.cpp:132–133`. -/
def copyNames (s : Logger) (fileName dir base : List Char) : Logger :=
  { s with
    lFileName := stored s.lFileName [strcpy base]
    lDirName := stored s.lDirName [strncpy fileName dir.length] }

/-- `log_file_fullname`; `src/log/log.cpp:134–135`. -/
def fullname (s : Logger) (tm : MyTime) : List Char :=
  (cString s.lDirName 128 ++ (tm.datePrefix ++ cString s.lFileName 128)).take 266

/-- The log file is opened; `src/log/log.cpp:123–150`. -/
def openFile (s : Logger) (fileName : List Char) (env : InitEnv) : InitEnd × Logger :=
  match LogFiles.splitName fileName with
  | none => (.returned false, s)
  | some (dir, base) =>
    let s := s.copyNames fileName dir base
    if env.opened then
      (.returned true, { s with lFp := some (.file (s.fullname env.tm)), lInited := true })
    else (.returned false, { s with lFp := none })

/-- What follows the check of the arguments; `src/log/log.cpp:96–150`. -/
def setUp (s : Logger) (a : InitArgs) (env : InitEnv) : InitEnd × Logger :=
  let s := { s with writer := s.writer.start a.bufferQueueSize, lBufSize := a.bufferSize }
  if a.bufferSize < 0 then (.badArrayNewLength, s)
  else
    let s := { s with
      lBuf := some fun _ ↦ nul
      lSplitLines := a.splitLines
      lToday := env.tm.day }
    if s.lIsStdout then (.returned true, { s with lInited := true, lFp := some .stdout })
    else s.openFile a.name env

/-- `Logger::init`; `none` if the assertion on the level fails; `src/log/log.cpp:75–151`. -/
def init (s : Logger) (a : InitArgs) (env : InitEnv) : Option (InitEnd × Logger) :=
  if s.lInited then some (.returned false, s)
  else
    let s := if a.fileName.isNone then { s with lIsStdout := true } else s
    if ¬ s.lIsStdout ∧ 128 ≤ a.name.length then
      some (.invalidArgument "file name must be less than 128 bytes!", s)
    else
      (LogLevel.ofInt a.level).map fun level ↦ { s with gLogLevel := level }.setUp a env

end Logger

/-- What `init` leaves. -/
structure InitTrace where
  writer : WriterSetup
  isStdout : Bool
  dirName : List Char
  fileName : List Char
  bufSize : Int
  splitLines : Int

/-- What a logger shows of that. -/
def Logger.trace (s : Logger) : InitTrace where
  writer := s.writer
  isStdout := s.lIsStdout
  dirName := cString s.lDirName 128
  fileName := cString s.lFileName 128
  bufSize := s.lBufSize
  splitLines := s.lSplitLines

/-- How a call ends and what it leaves. -/
def Logger.initTrace (s : Logger) (a : InitArgs) (env : InitEnv) : Option (InitEnd × InitTrace) :=
  (s.init a env).map fun r ↦ (r.1, r.2.trace)

namespace InitArgs

/-- `init` throws because of the name. -/
def TooLong (a : InitArgs) : Prop := 128 ≤ a.name.length

/-- The assertion on the level fails. -/
def Aborts (a : InitArgs) : Prop := ¬ a.TooLong ∧ LogLevel.ofInt a.level = none

instance (a : InitArgs) : Decidable a.TooLong := inferInstanceAs (Decidable (_ ≤ _))

/-- The directory in the name. -/
def dir (a : InitArgs) : Option (List Char) := (LogFiles.splitName a.name).map Prod.fst

/-- After a failed `init` with `a`, one with `b` overwrites all that `a` has set: `a` asked for no
queue; if it has a directory, `b` reaches the names and has one that is no shorter; and `b` reaches
the sizes unless those of `a` were zero. -/
def NoTrace (a b : InitArgs) : Prop :=
  b.Aborts ∨
    a.bufferQueueSize < 1 ∧
      (∀ dir, a.dir = some dir → ¬ b.TooLong ∧ 0 ≤ b.bufferSize ∧
        ∃ dir', b.dir = some dir' ∧ dir.length ≤ dir'.length) ∧
      (b.TooLong → a.bufferSize = 0) ∧
      (b.TooLong ∨ b.bufferSize < 0 → a.splitLines = 0)

variable {a b : InitArgs} {env : InitEnv}

/-- A name has no terminator. -/
theorem nul_not_mem_name : nul ∉ a.name := by
  unfold name
  cases a.fileName with
  | none => exact List.not_mem_nil
  | some text => exact text.2

/-- Without a file name, the name is not too long. -/
theorem not_isNone_of_tooLong (h : b.TooLong) : b.fileName.isNone = false := by
  unfold TooLong name at h
  cases hfile : b.fileName with
  | none =>
    rw [hfile] at h
    exact absurd h (by decide)
  | some _ => rfl

end InitArgs

/-- What stands in front of an end. -/
theorem take_of_append {l front behind : List Char} (h : l = front ++ behind) :
    l.take (l.length - behind.length) = front := by
  rw [h, List.length_append, Nat.add_sub_cancel, List.take_left]

/-- The directory, which is not empty, and the base name make up the name. -/
theorem splitName_eq_some {name dir base : List Char}
    (h : LogFiles.splitName name = some (dir, base)) : name = dir ++ base ∧ dir ≠ [] := by
  have hparts : name = (name.reverse.dropWhile (· ≠ '/')).reverse ++
      (name.reverse.takeWhile (· ≠ '/')).reverse := by
    rw [← List.reverse_append, List.takeWhile_append_dropWhile, List.reverse_reverse]
  unfold LogFiles.splitName at h
  split at h
  · next hslash =>
    cases h
    rw [take_of_append hparts]
    refine ⟨hparts, ?_⟩
    intro hnil
    rw [List.reverse_eq_nil_iff, List.dropWhile_eq_nil_iff] at hnil
    simpa using hnil '/' (List.mem_reverse.mpr hslash)
  · cases h

/-- Without a file name there is no directory. -/
theorem InitArgs.dir_of_isNone {b : InitArgs} (h : b.fileName.isNone = true) : b.dir = none := by
  rw [dir, name, Option.isNone_iff_eq_none.mp h]
  rfl

/-- The parts of a name. -/
structure InitArgs.Split (a : InitArgs) (dir base : List Char) : Prop where
  splitName : LogFiles.splitName a.name = some (dir, base)
  name : a.name = dir ++ base
  nonempty : dir ≠ []
  dirFree : nul ∉ dir
  baseFree : nul ∉ base

/-- A name with a slash has parts. -/
theorem InitArgs.split_of_splitName {a : InitArgs} {dir base : List Char}
    (h : LogFiles.splitName a.name = some (dir, base)) : a.Split dir base := by
  obtain ⟨hname, hnonempty⟩ := splitName_eq_some h
  refine ⟨h, hname, hnonempty, ?_, ?_⟩
  · intro hmem
    apply InitArgs.nul_not_mem_name (a := a)
    rw [hname]
    exact List.mem_append_left base hmem
  · intro hmem
    apply InitArgs.nul_not_mem_name (a := a)
    rw [hname]
    exact List.mem_append_right dir hmem

/-- The parts, by the directory. -/
theorem InitArgs.split_of_dir {a : InitArgs} {dir : List Char} (h : a.dir = some dir) :
    ∃ base, a.Split dir base := by
  obtain ⟨⟨dir', base⟩, hsplit, hfst⟩ := Option.map_eq_some_iff.mp h
  cases hfst
  exact ⟨base, InitArgs.split_of_splitName hsplit⟩

/-- How many threads there are after the start. -/
theorem WriterSetup.started_start (w : WriterSetup) (n : Int) :
    (w.start n).started = w.started + if 1 ≤ n then 1 else 0 := by
  unfold start
  split <;> rfl

namespace Logger

variable {s s' : Logger} {a b : InitArgs} {env : InitEnv} {name : List Char}

/-- What a first `init` that returned `false` has left. -/
structure Failed (a : InitArgs) (s : Logger) : Prop where
  lInited : s.lInited = false
  lIsStdout : s.lIsStdout = false
  writer : s.writer = fresh.writer.start a.bufferQueueSize
  lBufSize : s.lBufSize = a.bufferSize
  lSplitLines : s.lSplitLines = a.splitLines
  short : ¬ a.TooLong
  unnamed : a.dir = none → s.lDirName = fresh.lDirName ∧ s.lFileName = fresh.lFileName
  named : ∀ dir, a.dir = some dir → s.lDirName = storeAt fresh.lDirName 0 dir

/-- The directory is copied without its terminator. -/
theorem chars_strncpy_dir {name dir base : List Char} (h : name = dir ++ base) :
    strncpy name dir.length = ⟨0, dir⟩ := by
  rw [strncpy, h, List.take_left, List.length_append, Nat.sub_eq_zero_of_le (by omega),
    List.replicate_zero, List.append_nil]

/-- A call on a logger that has not been initialised. -/
theorem init_eq (hinited : s.lInited = false) (hstdout : s.lIsStdout = false) :
    s.init b env =
      if b.TooLong then some (.invalidArgument "file name must be less than 128 bytes!", s)
      else (LogLevel.ofInt b.level).map fun level ↦
        { s with lIsStdout := b.fileName.isNone, gLogLevel := level }.setUp b env := by
  rw [init, if_neg (by rw [hinited]; decide)]
  cases hfile : b.fileName.isNone with
  | true =>
    have hshort : ¬ b.TooLong := by
      intro hlong
      rw [InitArgs.not_isNone_of_tooLong hlong] at hfile
      cases hfile
    simp only [if_true, not_true_eq_false, false_and, if_false, if_neg hshort]
  | false =>
    simp only [Bool.false_eq_true, if_false, hstdout, not_false_eq_true, true_and]
    congr

/-- What the part behind the checks leaves. -/
theorem trace_setUp : ((s.setUp b env).1, (s.setUp b env).2.trace) =
    if b.bufferSize < 0 then
      (.badArrayNewLength,
        { s.trace with writer := s.writer.start b.bufferQueueSize, bufSize := b.bufferSize })
    else if s.lIsStdout then
      (.returned true, { s.trace with
        writer := s.writer.start b.bufferQueueSize
        bufSize := b.bufferSize
        splitLines := b.splitLines })
    else
      match LogFiles.splitName b.name with
      | none => (.returned false, { s.trace with
          writer := s.writer.start b.bufferQueueSize
          bufSize := b.bufferSize
          splitLines := b.splitLines })
      | some (dir, base) => (.returned env.opened, { s.trace with
          writer := s.writer.start b.bufferQueueSize
          bufSize := b.bufferSize
          splitLines := b.splitLines
          dirName := cString (stored s.lDirName [strncpy b.name dir.length]) 128
          fileName := cString (stored s.lFileName [strcpy base]) 128 }) := by
  unfold setUp
  dsimp only
  split
  · rfl
  · split
    · rfl
    · unfold openFile
      split
      · rfl
      · cases env.opened <;> rfl

/-- A log file that was not opened: the name has no slash, or `fopen` has failed. -/
theorem of_openFile_failed (h : s.openFile name env = (.returned false, s')) :
    LogFiles.splitName name = none ∧ s' = s ∨
      ∃ dir base, LogFiles.splitName name = some (dir, base) ∧
        s' = { s.copyNames name dir base with lFp := none } := by
  unfold openFile at h
  split at h
  · next hsplit =>
    cases h
    exact .inl ⟨hsplit, rfl⟩
  · next dir base hsplit =>
    dsimp only at h
    split at h
    · cases h
    · cases h
      exact .inr ⟨dir, base, hsplit, rfl⟩

/-- The part behind the checks returns `false` only where the log file was not opened. -/
theorem of_setUp_failed (h : s.setUp a env = (.returned false, s')) :
    s.lIsStdout = false ∧
      { s with
        writer := s.writer.start a.bufferQueueSize
        lBufSize := a.bufferSize
        lBuf := some fun _ ↦ nul
        lSplitLines := a.splitLines
        lToday := env.tm.day }.openFile a.name env = (.returned false, s') := by
  unfold setUp at h
  dsimp only at h
  split at h
  · cases h
  · split at h
    · cases h
    · next hfile => exact ⟨Bool.eq_false_of_not_eq_true hfile, h⟩

/-- After a first `init` that returned `false`. -/
theorem failed_of_init (h : fresh.init a env = some (.returned false, s)) : Failed a s := by
  rw [init_eq rfl rfl] at h
  split at h
  · cases h
  · next hshort =>
    obtain ⟨level, -, hsetup⟩ := Option.map_eq_some_iff.mp h
    obtain ⟨hfile, hopen⟩ := of_setUp_failed hsetup
    obtain ⟨hsplit, rfl⟩ | ⟨dir, base, hsplit, rfl⟩ := of_openFile_failed hopen
    · have hdir : a.dir = none := by rw [InitArgs.dir, hsplit]; rfl
      refine ⟨rfl, hfile, rfl, rfl, rfl, hshort, fun _ ↦ ⟨rfl, rfl⟩, ?_⟩
      intro dir hsome
      rw [hdir] at hsome
      cases hsome
    · have hdir : a.dir = some dir := by rw [InitArgs.dir, hsplit]; rfl
      refine ⟨rfl, hfile, rfl, rfl, rfl, hshort, ?_, ?_⟩
      · intro hnone
        rw [hdir] at hnone
        cases hnone
      · intro dir' hsome
        rw [hdir] at hsome
        cases hsome
        show stored fresh.lDirName [strncpy a.name dir.length] = _
        rw [chars_strncpy_dir (splitName_eq_some hsplit).1]
        rfl

/-- The writer is as it would be after the second call alone exactly if the first one asked for no
queue. -/
theorem Failed.writer_iff (h : Failed a s) (n : Int) :
    s.writer.start n = fresh.writer.start n ↔ a.bufferQueueSize < 1 := by
  constructor
  · intro heq
    have hstarted := congrArg WriterSetup.started heq
    rw [h.writer, WriterSetup.started_start, WriterSetup.started_start,
      WriterSetup.started_start] at hstarted
    apply Int.not_le.mp
    intro hqueue
    rw [if_pos hqueue] at hstarted
    omega
  · intro hqueue
    rw [h.writer, WriterSetup.start.eq_def fresh.writer a.bufferQueueSize, if_neg (by omega)]

/-- Where the array of the directory still has a terminator. -/
theorem Failed.lDirName_eq_nul_iff (h : Failed a s) (i : Nat) :
    s.lDirName i = nul ↔ ∀ dir, a.dir = some dir → dir.length ≤ i := by
  cases hdir : a.dir with
  | none =>
    rw [(h.unnamed hdir).1]
    exact iff_of_true rfl (fun _ hsome ↦ by cases hsome)
  | some dir =>
    obtain ⟨base, hsplit⟩ := InitArgs.split_of_dir hdir
    have hcell : s.lDirName i = (dir[i]?).getD nul := by
      rw [h.named dir hdir, storeAt, if_pos (by omega), show ((i : Int) - 0).toNat = i by omega]
      rfl
    rw [hcell]
    constructor
    · intro hnul dir' hsome
      cases hsome
      apply Nat.not_lt.mp
      intro hlt
      rw [List.getElem?_eq_getElem hlt, Option.getD_some] at hnul
      exact hsplit.dirFree (hnul ▸ List.getElem_mem hlt)
    · intro hle
      rw [List.getElem?_eq_none (hle dir rfl), Option.getD_none]

/-- An array of terminators holds the empty string. -/
theorem cString_eq_nil_iff {m : Int → Char} : cString m 128 = [] ↔ m 0 = nul :=
  cString_eq_iff List.not_mem_nil rfl (by decide)

/-- The names are as they would be without the first call exactly if that had no directory. -/
theorem Failed.names_iff (h : Failed a s) :
    (cString s.lDirName 128 = cString fresh.lDirName 128 ∧
      cString s.lFileName 128 = cString fresh.lFileName 128) ↔ a.dir = none := by
  constructor
  · rintro ⟨hdirs, -⟩
    rw [cString_eq_nil_iff.mpr (show fresh.lDirName 0 = nul from rfl), cString_eq_nil_iff] at hdirs
    have hall := (h.lDirName_eq_nul_iff 0).mp hdirs
    cases hdir : a.dir with
    | none => rfl
    | some dir =>
      obtain ⟨base, hsplit⟩ := InitArgs.split_of_dir hdir
      exact absurd (List.eq_nil_of_length_eq_zero (Nat.le_zero.mp (hall dir hdir))) hsplit.nonempty
  · intro hnone
    rw [(h.unnamed hnone).1, (h.unnamed hnone).2]
    exact ⟨rfl, rfl⟩

/-- The directory of the second call is read back exactly if that of the first is no longer. -/
theorem Failed.dir_iff (h : Failed a s) {dir : List Char} (hfree : nul ∉ dir)
    (hlength : dir.length < 128) : cString (storeAt s.lDirName 0 dir) 128 = dir ↔
      ∀ dir', a.dir = some dir' → dir'.length ≤ dir.length := by
  have hbehind : storeAt s.lDirName 0 dir dir.length = s.lDirName dir.length := by
    rw [storeAt, if_pos (by omega), List.getElem?_eq_none (by omega), Option.getD_none]
  rw [cString_eq_iff hfree window_storeAt_self (by omega), hbehind, h.lDirName_eq_nul_iff]

/-- The base name is read back. -/
theorem cString_base {m : Int → Char} {base : List Char} (hfree : nul ∉ base)
    (hlength : base.length < 128) : cString (stored m [strcpy base]) 128 = base := by
  apply cString_of_window hfree window_storeAt_self
  rw [List.length_append, List.length_singleton]
  omega

/-- What is left, part by part, with one mode on both sides. -/
theorem trace_eq_iff {writer writer' : WriterSetup} {isStdout : Bool}
    {dirName dirName' fileName fileName' : List Char}
    {bufSize bufSize' splitLines splitLines' : Int} :
    InitTrace.mk writer isStdout dirName fileName bufSize splitLines =
        InitTrace.mk writer' isStdout dirName' fileName' bufSize' splitLines' ↔
      writer = writer' ∧ (dirName = dirName' ∧ fileName = fileName') ∧
        bufSize = bufSize' ∧ splitLines = splitLines' := by
  rw [InitTrace.mk.injEq, and_assoc]
  simp only [true_and]

/-- The directory and the base name that the second call copies are as they would be without the
first call exactly if the directory is no shorter than that of the first. -/
theorem Failed.copied_iff (h : Failed a s) (hshort : ¬ b.TooLong) {dir base : List Char}
    (hsplit : b.Split dir base) :
    (cString (stored s.lDirName [strncpy b.name dir.length]) 128 =
        cString (stored fresh.lDirName [strncpy b.name dir.length]) 128 ∧
      cString (stored s.lFileName [strcpy base]) 128 =
        cString (stored fresh.lFileName [strcpy base]) 128) ↔
      ∀ dir', a.dir = some dir' → dir'.length ≤ dir.length := by
  have hlength : b.name.length < 128 := Nat.not_le.mp hshort
  rw [hsplit.name, List.length_append] at hlength
  have halone : cString (storeAt fresh.lDirName 0 dir) 128 = dir := by
    rw [cString_eq_iff hsplit.dirFree window_storeAt_self (by omega), storeAt, if_pos (by omega),
      List.getElem?_eq_none (by omega), Option.getD_none]
    rfl
  rw [cString_base hsplit.baseFree (by omega), cString_base hsplit.baseFree (by omega),
    chars_strncpy_dir hsplit.name, and_iff_left rfl]
  show cString (storeAt s.lDirName 0 dir) 128 = cString (storeAt fresh.lDirName 0 dir) 128 ↔ _
  rw [halone, h.dir_iff hsplit.dirFree (by omega)]

/-- What the second call leaves is what it would leave alone exactly if it overwrites all. -/
theorem Failed.initTrace_eq_iff (h : Failed a s) :
    s.initTrace b env = fresh.initTrace b env ↔ a.NoTrace b := by
  have hnone : a.dir = none ↔ ∀ dir, a.dir = some dir → False :=
    Option.eq_none_iff_forall_ne_some
  have hwriter : s.writer = fresh.writer ↔ a.bufferQueueSize < 1 := h.writer_iff 0
  unfold initTrace InitArgs.NoTrace
  rw [init_eq h.lInited h.lIsStdout, init_eq rfl rfl]
  by_cases hlong : b.TooLong
  · -- The second call throws because of its name, and sets nothing.
    have hnot : ¬ b.Aborts := fun haborts ↦ haborts.1 hlong
    rw [if_pos hlong, if_pos hlong]
    simp only [Option.map_some, Option.some.injEq, Prod.mk.injEq, true_and, trace, h.lIsStdout,
      show fresh.lIsStdout = false from rfl, trace_eq_iff, hwriter, h.names_iff, h.lBufSize,
      h.lSplitLines, hnot, false_or, hlong, true_or, true_imp_iff, not_true_eq_false, false_and,
      ← hnone]
    rfl
  · rw [if_neg hlong, if_neg hlong]
    cases hlevel : LogLevel.ofInt b.level with
    | none => exact iff_of_true rfl (Or.inl ⟨hlong, hlevel⟩)
    | some level =>
      have hnot : ¬ b.Aborts := by
        intro haborts
        rw [haborts.2] at hlevel
        cases hlevel
      simp only [Option.map_some, trace_setUp, Option.some.injEq, hnot, false_or, hlong,
        false_imp_iff, true_and, not_false_eq_true]
      by_cases hneg : b.bufferSize < 0
      · -- It throws because of its buffer size, before it sets the count and the names.
        have hsize : ¬ 0 ≤ b.bufferSize := Int.not_le.mpr hneg
        rw [if_pos hneg, if_pos hneg]
        simp only [Prod.mk.injEq, true_and, trace, trace_eq_iff, h.writer_iff, h.names_iff,
          h.lSplitLines, hneg, true_imp_iff, hsize, false_and, ← hnone]
        rfl
      · have hsize : 0 ≤ b.bufferSize := Int.not_lt.mp hneg
        rw [if_neg hneg, if_neg hneg]
        simp only [hneg, false_imp_iff, and_true, true_and, hsize]
        cases hfile : b.fileName.isNone with
        | true =>
          simp only [if_true, Prod.mk.injEq, true_and, trace, trace_eq_iff, h.writer_iff,
            h.names_iff, and_true, InitArgs.dir_of_isNone hfile, reduceCtorEq, false_and,
            exists_false, ← hnone]
        | false =>
          simp only [Bool.false_eq_true, if_false]
          cases hsplit : LogFiles.splitName b.name with
          | none =>
            have hdir : b.dir = none := by rw [InitArgs.dir, hsplit]; rfl
            simp only [Prod.mk.injEq, true_and, trace, trace_eq_iff, h.writer_iff,
              h.names_iff, and_true, hdir, reduceCtorEq, false_and, exists_false, ← hnone]
          | some parts =>
            obtain ⟨dir, base⟩ := parts
            have hdir : b.dir = some dir := by rw [InitArgs.dir, hsplit]; rfl
            simp only [Prod.mk.injEq, true_and, trace, trace_eq_iff, h.writer_iff, and_true,
              h.copied_iff hlong (InitArgs.split_of_splitName hsplit), hdir, Option.some.injEq,
              exists_eq_left']

end Logger

/-- After a first `init` that returned `false`, a second one ends as it would alone and leaves what
it would leave alone exactly if it overwrites all that the first one has set. -/
theorem failed_init_leaves_no_trace_iff {a b : InitArgs} {env env' : InitEnv} {s : Logger}
    (h : Logger.fresh.init a env = some (.returned false, s)) :
    s.initTrace b env' = Logger.fresh.initTrace b env' ↔ a.NoTrace b :=
  (Logger.failed_of_init h).initTrace_eq_iff

/-- Arguments with a file name that has no slash. -/
def withoutSlash (bufferQueueSize : Int) : InitArgs :=
  ⟨some ⟨"log".toList, by decide⟩, bufferQueueSize, 2, 8192, 5000⟩

/-- Arguments without a file name and without a queue. -/
def toStdout : InitArgs := ⟨none, 0, 2, 8192, 5000⟩

/-- A day on which files can be opened. -/
def openableToday : InitEnv := ⟨⟨2024, 1, 1⟩, true⟩

/-- After a failure without a queue and a slash. -/
theorem no_trace_of_missing_slash :
    ∃ s, Logger.fresh.init (withoutSlash 0) openableToday = some (.returned false, s) ∧
      (s.initTrace toStdout openableToday = Logger.fresh.initTrace toStdout openableToday ↔
        (withoutSlash 0).NoTrace toStdout) :=
  ⟨_, rfl, failed_init_leaves_no_trace_iff rfl⟩

/-- A failed `init` with a queue leaves the logger asynchronous. -/
theorem failed_init_leaves_queue :
    ¬ ∀ (a b : InitArgs) (env env' : InitEnv) (s : Logger),
      Logger.fresh.init a env = some (.returned false, s) →
        s.initTrace b env' = Logger.fresh.initTrace b env' := by
  intro h
  have hfailed : ∃ s, Logger.fresh.init (withoutSlash 4) openableToday =
      some (.returned false, s) := ⟨_, rfl⟩
  obtain ⟨s, hs⟩ := hfailed
  have htrace := h _ toStdout _ openableToday s hs
  cases (Logger.failed_of_init hs).initTrace_eq_iff.mp htrace with
  | inl haborts => exact absurd haborts.2 (by decide)
  | inr hno => exact absurd hno.1 (by decide)

end ConcurrentServer.Log
