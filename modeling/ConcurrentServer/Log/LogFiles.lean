import ConcurrentServer.Base.Threads
import ConcurrentServer.Log.Logging

/-!
# The files of the log

`src/log/log.cpp:45–223`, `src/log/log.h:63–78`. What the critical sections of `l_mutex` do with
the count, the day and the streams, whichever thread runs them. The streams are kept in the order
in which they were opened, and each knows whether `fclose` has been called on it; `l_fp` is the
number of one of them, or null. A section that divides by zero, or uses `l_fp` when it is not an
open stream, has no successor. `l_count` is 64 bits wide and is taken not to wrap.
-/

namespace ConcurrentServer.Log
open ConcurrentServer.Base

variable {Record : Type}

/-- A stream that `fopen` returned, or `stdout`. -/
structure LogStream (Record : Type) where
  name : FileName
  records : List Record
  isOpen : Bool
  deriving DecidableEq, Repr

/-- The part of a logger that its files depend on; `src/log/log.h:80–95`. -/
structure LogFiles (Record : Type) where
  lDirName : List Char
  lFileName : List Char
  lCount : Int
  lToday : Int
  lSplitLines : Int
  streams : List (LogStream Record)
  lFp : Option Nat
  deriving DecidableEq, Repr

/-- The critical sections. -/
inductive LogSection (Record : Type)
  /-- `l_count++` and the rotation, in a call that read `tm`; `opened` says whether `fopen`
  succeeds. -/
  | count (tm : MyTime) (opened : Bool)
  /-- `fputs`, in `write_log` or in `async_write`. -/
  | fputs (record : Record)
  /-- `Logger::flush`. -/
  | flush
  deriving DecidableEq, Repr

namespace LogFiles

/-- `strrchr(file_name, '/')`: what stands up to the last slash, and what behind it. -/
def splitName (fileName : List Char) : Option (List Char × List Char) :=
  let behind := (fileName.reverse.takeWhile (· ≠ '/')).reverse
  if '/' ∈ fileName then some (fileName.take (fileName.length - behind.length), behind) else none

/-- `Logger::init` of a fresh logger, as far as the files go; `src/log/log.cpp:75–151`. The clock
reads `tm`, and `opened` says whether `fopen` succeeds; `none` is the return value `false`. -/
def init (fileName : Option (List Char)) (splitLines : Int) (tm : MyTime) (opened : Bool) :
    Except String (Option (LogFiles Record)) :=
  match fileName with
  | none => .ok (some ⟨[], [], 0, tm.day, splitLines, [⟨.stdout, [], true⟩], some 0⟩)
  | some fileName =>
    if fileName.length ≥ 128 then .error "file name must be less than 128 bytes!"
    else match splitName fileName with
      | none => .ok none
      | some (lDirName, lFileName) =>
        if opened then
          .ok (some ⟨lDirName, lFileName, 0, tm.day, splitLines, [⟨.daily tm, [], true⟩], some 0⟩)
        else .ok none

/-- What a call does to the stream that `l_fp` points to; `none` unless that is open. -/
def onStream (s : LogFiles Record) (f : LogStream Record → LogStream Record) :
    Option (LogFiles Record) :=
  match s.lFp with
  | none => none
  | some i =>
    match s.streams[i]? with
    | none => none
    | some stream =>
      if stream.isOpen then some { s with streams := s.streams.set i (f stream) } else none

/-- `fflush(l_fp)`. -/
def fflush (s : LogFiles Record) : Option (LogFiles Record) := s.onStream id

/-- `fclose(l_fp)`. -/
def fclose (s : LogFiles Record) : Option (LogFiles Record) :=
  s.onStream fun stream ↦ { stream with isOpen := false }

/-- `fputs(record, l_fp)`. -/
def fputs (s : LogFiles Record) (record : Record) : Option (LogFiles Record) :=
  s.onStream fun stream ↦ { stream with records := stream.records ++ [record] }

/-- `l_fp = fopen(name, "a")`. -/
def fopen (s : LogFiles Record) (name : FileName) (opened : Bool) : LogFiles Record :=
  if opened then
    { s with streams := s.streams ++ [⟨name, [], true⟩], lFp := some s.streams.length }
  else { s with lFp := none }

/-- The test for a rotation, on a count that has been increased; `none` is the division by
zero; `src/log/log.cpp:161`. -/
def rotates (s : LogFiles Record) (tm : MyTime) : Option Bool :=
  if s.lToday ≠ tm.day then some true
  else if s.lSplitLines = 0 then none
  else some (s.lCount.tmod s.lSplitLines = 0)

/-- The rotation; `src/log/log.cpp:163–181`. -/
def rotate (s : LogFiles Record) (tm : MyTime) (opened : Bool) : Option (LogFiles Record) :=
  (s.fflush.bind fclose).map fun s ↦
    if s.lToday ≠ tm.day then
      fopen { s with lToday := tm.day, lCount := 0 } (.daily tm) opened
    else s.fopen (.part tm (s.lCount.tdiv s.lSplitLines)) opened

/-- `l_count++` and the rotation; `src/log/log.cpp:157–183`. -/
def count (s : LogFiles Record) (tm : MyTime) (opened : Bool) : Option (LogFiles Record) :=
  let s := { s with lCount := s.lCount + 1 }
  match s.rotates tm with
  | none => none
  | some false => some s
  | some true => s.rotate tm opened

/-- The step function. -/
def step (s : LogFiles Record) : LogSection Record → Option (LogFiles Record)
  | .count tm opened => s.count tm opened
  | .fputs record => s.fputs record
  | .flush => s.fflush

/-- What the destructor does with the stream; `src/log/log.cpp:58–62`. -/
def destroy (s : LogFiles Record) : Option (LogFiles Record) :=
  if s.lFp = none then some s else s.fclose

/-- The next count finds the test for a rotation true. -/
def Rotates (s : LogFiles Record) (tm : MyTime) : Prop :=
  s.lToday ≠ tm.day ∨ s.lSplitLines ≠ 0 ∧ (s.lCount + 1).tmod s.lSplitLines = 0

/-- The next count finds it false. -/
def Stays (s : LogFiles Record) (tm : MyTime) : Prop :=
  s.lToday = tm.day ∧ s.lSplitLines ≠ 0 ∧ (s.lCount + 1).tmod s.lSplitLines ≠ 0

instance (s : LogFiles Record) (tm : MyTime) : Decidable (s.Rotates tm) :=
  inferInstanceAs (Decidable (_ ∨ _))

instance (s : LogFiles Record) (tm : MyTime) : Decidable (s.Stays tm) :=
  inferInstanceAs (Decidable (_ ∧ _))

/-! ### Steps -/

/-- `l_fp` is the open stream `stream`, the `i`-th that was opened. -/
structure Current (s : LogFiles Record) (i : Nat) (stream : LogStream Record) : Prop where
  lFp : s.lFp = some i
  at_ : s.streams[i]? = some stream
  isOpen : stream.isOpen = true

/-- The streams after `fclose(l_fp)`. -/
def closed (s : LogFiles Record) (i : Nat) (stream : LogStream Record) :
    List (LogStream Record) :=
  s.streams.set i { stream with isOpen := false }

/-- What the critical sections do. -/
inductive Step (s : LogFiles Record) : LogSection Record → LogFiles Record → Prop
  | stay (tm : MyTime) (opened : Bool) (stays : s.Stays tm) :
    Step s (.count tm opened) { s with lCount := s.lCount + 1 }
  | newDay (tm : MyTime) (opened : Bool) (i : Nat) (stream : LogStream Record)
    (current : s.Current i stream) (day : s.lToday ≠ tm.day) :
    Step s (.count tm opened)
      (fopen { s with lToday := tm.day, lCount := 0, streams := s.closed i stream } (.daily tm)
        opened)
  | newPart (tm : MyTime) (opened : Bool) (i : Nat) (stream : LogStream Record)
    (current : s.Current i stream) (day : s.lToday = tm.day) (split : s.lSplitLines ≠ 0)
    (full : (s.lCount + 1).tmod s.lSplitLines = 0) :
    Step s (.count tm opened)
      (fopen { s with lCount := s.lCount + 1, streams := s.closed i stream }
        (.part tm ((s.lCount + 1).tdiv s.lSplitLines)) opened)
  | fputs (record : Record) (i : Nat) (stream : LogStream Record) (current : s.Current i stream) :
    Step s (.fputs record)
      { s with streams := s.streams.set i { stream with records := stream.records ++ [record] } }
  | flush (i : Nat) (stream : LogStream Record) (current : s.Current i stream) : Step s .flush s

variable {s t : LogFiles Record} {a : LogSection Record}

/-- A call on the stream needs `l_fp` to be an open one. -/
theorem onStream_eq_some {f : LogStream Record → LogStream Record} :
    s.onStream f = some t ↔
      ∃ i stream, s.Current i stream ∧ t = { s with streams := s.streams.set i (f stream) } := by
  constructor
  · intro h
    unfold onStream at h
    split at h
    · cases h
    · rename_i i hfp
      split at h
      · cases h
      · rename_i stream hget
        split at h
        · rename_i hopen
          cases h
          exact ⟨i, stream, ⟨hfp, hget, hopen⟩, rfl⟩
        · cases h
  · rintro ⟨i, stream, hcurrent, rfl⟩
    simp [onStream, hcurrent.lFp, hcurrent.at_, hcurrent.isOpen]

/-- `fflush` leaves everything in place. -/
theorem fflush_eq_some : s.fflush = some t ↔ (∃ i stream, s.Current i stream) ∧ t = s := by
  rw [fflush, onStream_eq_some]
  constructor
  · rintro ⟨i, stream, hcurrent, rfl⟩
    refine ⟨⟨i, stream, hcurrent⟩, ?_⟩
    obtain ⟨hlt, hget⟩ := List.getElem?_eq_some_iff.mp hcurrent.at_
    rw [id, ← hget, List.set_getElem_self]
  · rintro ⟨⟨i, stream, hcurrent⟩, rfl⟩
    refine ⟨i, stream, hcurrent, ?_⟩
    obtain ⟨hlt, hget⟩ := List.getElem?_eq_some_iff.mp hcurrent.at_
    rw [id, ← hget, List.set_getElem_self]

/-- The rotation closes the stream and opens another. -/
theorem rotate_eq_some {tm : MyTime} {opened : Bool} :
    s.rotate tm opened = some t ↔ ∃ i stream, s.Current i stream ∧
      t = if s.lToday ≠ tm.day then
          fopen { s with lToday := tm.day, lCount := 0, streams := s.closed i stream } (.daily tm)
            opened
        else fopen { s with streams := s.closed i stream }
          (.part tm (s.lCount.tdiv s.lSplitLines)) opened := by
  unfold rotate
  rw [Option.map_eq_some_iff]
  constructor
  · rintro ⟨v, hclose, rfl⟩
    obtain ⟨u, hflush, hfclose⟩ := Option.bind_eq_some_iff.mp hclose
    obtain ⟨-, rfl⟩ := fflush_eq_some.mp hflush
    obtain ⟨i, stream, hcurrent, rfl⟩ := onStream_eq_some.mp hfclose
    exact ⟨i, stream, hcurrent, rfl⟩
  · rintro ⟨i, stream, hcurrent, rfl⟩
    refine ⟨{ s with streams := s.closed i stream }, ?_, rfl⟩
    apply Option.bind_eq_some_iff.mpr
    refine ⟨s, fflush_eq_some.mpr ⟨⟨i, stream, hcurrent⟩, rfl⟩, ?_⟩
    exact onStream_eq_some.mpr ⟨i, stream, hcurrent, rfl⟩

/-- What the count does, by the test for a rotation. -/
theorem step_of_count {tm : MyTime} {opened : Bool} (h : s.count tm opened = some t) :
    Step s (.count tm opened) t := by
  simp only [count, rotates] at h
  split at h
  · cases h
  · rename_i hrotates
    split at hrotates
    · cases hrotates
    · rename_i hday
      split at hrotates
      · cases hrotates
      · rename_i hsplit
        cases h
        exact .stay tm opened ⟨not_not.mp hday, hsplit, by simpa using hrotates⟩
  · rename_i hrotates
    obtain ⟨i, stream, hcurrent, rfl⟩ := rotate_eq_some.mp h
    by_cases hday : s.lToday = tm.day
    · rw [if_neg (not_not.mpr hday)] at hrotates ⊢
      split at hrotates
      · cases hrotates
      · rename_i hsplit
        exact .newPart tm opened i stream ⟨hcurrent.lFp, hcurrent.at_, hcurrent.isOpen⟩ hday
          hsplit (by simpa using hrotates)
    · rw [if_pos hday]
      exact .newDay tm opened i stream ⟨hcurrent.lFp, hcurrent.at_, hcurrent.isOpen⟩ hday

/-- The step function makes these steps and no others. -/
theorem step_iff : s.step a = some t ↔ Step s a t := by
  constructor
  · intro h
    cases a with
    | count tm opened => exact step_of_count h
    | fputs record =>
      obtain ⟨i, stream, hcurrent, rfl⟩ := onStream_eq_some.mp h
      exact .fputs record i stream hcurrent
    | flush =>
      obtain ⟨⟨i, stream, hcurrent⟩, rfl⟩ := fflush_eq_some.mp h
      exact .flush i stream hcurrent
  · intro h
    cases h with
    | stay tm opened stays =>
      obtain ⟨day, split, within⟩ := stays
      simp [step, count, rotates, day, split, within]
    | newDay tm opened i stream current day =>
      have hrotate : rotate { s with lCount := s.lCount + 1 } tm opened = _ :=
        rotate_eq_some.mpr ⟨i, stream, ⟨current.lFp, current.at_, current.isOpen⟩, rfl⟩
      simp only [step, count, rotates, if_pos day]
      rw [hrotate, if_pos day]
      rfl
    | newPart tm opened i stream current day split full =>
      have hrotate : rotate { s with lCount := s.lCount + 1 } tm opened = _ :=
        rotate_eq_some.mpr ⟨i, stream, ⟨current.lFp, current.at_, current.isOpen⟩, rfl⟩
      have hday : ¬ s.lToday ≠ tm.day := not_not.mpr day
      simp only [step, count, rotates, if_neg hday, if_neg split, full, decide_true]
      rw [hrotate, if_neg hday]
      rfl
    | fputs record i stream current =>
      exact onStream_eq_some.mpr ⟨i, stream, current, rfl⟩
    | flush i stream current => exact fflush_eq_some.mpr ⟨⟨i, stream, current⟩, rfl⟩

/-- What `init` leaves behind when it returns `true`. -/
theorem eq_of_init {fileName : Option (List Char)} {splitLines : Int} {tm : MyTime}
    {opened : Bool} (h : init fileName splitLines tm opened = .ok (some s)) :
    ∃ dirName baseName, s = ⟨dirName, baseName, 0, tm.day, splitLines,
      [⟨if fileName.isNone then .stdout else .daily tm, [], true⟩], some 0⟩ := by
  unfold init at h
  split at h
  · cases h
    exact ⟨[], [], rfl⟩
  · split at h
    · cases h
    · split at h
      · cases h
      · rename_i dirName baseName hsplit
        split at h
        · cases h
          exact ⟨dirName, baseName, rfl⟩
        · cases h

/-- A count that stays does not rotate. -/
theorem Stays.not_rotates {tm : MyTime} (h : s.Stays tm) : ¬ s.Rotates tm := by
  rintro (hday | ⟨-, hfull⟩)
  · exact hday h.1
  · exact h.2.2 hfull

/-- The stream that was just opened. -/
theorem current_fopen (s : LogFiles Record) (name : FileName) :
    (s.fopen name true).Current s.streams.length ⟨name, [], true⟩ := by
  constructor
  · rfl
  · show (s.streams ++ [_])[s.streams.length]? = _
    rw [List.getElem?_concat_length]
  · rfl

/-- Nothing is current after an `fopen` that failed. -/
theorem not_current_fopen {name : FileName} {i : Nat} {stream : LogStream Record} :
    ¬ (s.fopen name false).Current i stream := by
  intro h
  cases h.lFp

/-- What is current after an `fopen` shows that it succeeded. -/
theorem opened_of_current {name : FileName} {opened : Bool} {i : Nat}
    {stream : LogStream Record} (h : (s.fopen name opened).Current i stream) : opened = true := by
  cases opened with
  | false => exact absurd h not_current_fopen
  | true => rfl

/-- One stream is current. -/
theorem Current.unique {i j : Nat} {stream stream' : LogStream Record}
    (h : s.Current i stream) (h' : s.Current j stream') : i = j ∧ stream = stream' := by
  have hfp := h.lFp
  rw [h'.lFp] at hfp
  cases hfp
  have hget := h.at_
  rw [h'.at_] at hget
  cases hget
  exact ⟨rfl, rfl⟩

/-- The stream is still current with other records. -/
theorem Current.write {i : Nat} {stream : LogStream Record} (h : s.Current i stream)
    (records : List Record) :
    Current { s with streams := s.streams.set i { stream with records := records } } i
      { stream with records := records } := by
  obtain ⟨hlt, -⟩ := List.getElem?_eq_some_iff.mp h.at_
  constructor
  · exact h.lFp
  · show (s.streams.set i _)[i]? = _
    rw [List.getElem?_set_self hlt]
  · exact h.isOpen

/-- The names of the streams. -/
def names (s : LogFiles Record) : List FileName := s.streams.map fun stream ↦ stream.name

/-- The names stay when a stream changes that keeps its name. -/
theorem Current.names_eq {i : Nat} {stream stream' : LogStream Record} (h : s.Current i stream)
    (streams : t.streams = s.streams.set i stream') (name : stream'.name = stream.name) :
    t.names = s.names := by
  rw [names, streams, names]
  exact map_setThread_eq _ h.at_ name

/-- `fopen` adds a name. -/
theorem names_fopen (s : LogFiles Record) (name : FileName) :
    (s.fopen name true).names = s.names ++ [name] := by
  rw [names, fopen, if_pos rfl, List.map_append]
  rfl

/-! ### What stays -/

/-- Each stream is still there under its name, holds what it held, and is not open again. -/
def Extends (s t : LogFiles Record) : Prop :=
  ∀ (i : Nat) (stream : LogStream Record), s.streams[i]? = some stream →
    ∃ stream' : LogStream Record, t.streams[i]? = some stream' ∧
      stream'.name = stream.name ∧ stream.records <+: stream'.records ∧
      (stream'.isOpen = true → stream.isOpen = true)

/-- Nothing is lost when nothing happens to the streams. -/
theorem extends_of_streams_eq (h : t.streams = s.streams) : Extends s t := by
  intro i stream hget
  rw [← h] at hget
  exact ⟨stream, hget, rfl, List.prefix_rfl, id⟩

/-- A change of one stream that keeps its name and its records. -/
theorem extends_set {i : Nat} {stream stream' : LogStream Record}
    (at_ : s.streams[i]? = some stream) (name : stream'.name = stream.name)
    (records : stream.records <+: stream'.records)
    (isOpen : stream'.isOpen = true → stream.isOpen = true)
    (streams : t.streams = s.streams.set i stream') : Extends s t := by
  obtain ⟨hlt, -⟩ := List.getElem?_eq_some_iff.mp at_
  intro j other hget
  rw [streams]
  by_cases hj : j = i
  · rw [hj] at hget ⊢
    rw [at_] at hget
    cases hget
    exact ⟨stream', List.getElem?_set_self hlt, name, records, isOpen⟩
  · rw [List.getElem?_set_ne (Ne.symm hj)]
    exact ⟨other, hget, rfl, List.prefix_rfl, id⟩

/-- Two changes after each other. -/
theorem Extends.trans {u : LogFiles Record} (h : Extends s t) (h' : Extends t u) :
    Extends s u := by
  intro i stream hget
  obtain ⟨stream', hget', hname, hrecords, hopen⟩ := h i stream hget
  obtain ⟨stream'', hget'', hname', hrecords', hopen'⟩ := h' i stream' hget'
  refine ⟨stream'', hget'', hname'.trans hname, hrecords.trans hrecords', ?_⟩
  intro hlast
  exact hopen (hopen' hlast)

/-- `fopen` leaves the streams in place. -/
theorem extends_fopen (s : LogFiles Record) (name : FileName) (opened : Bool) :
    Extends s (s.fopen name opened) := by
  cases opened with
  | false => exact extends_of_streams_eq rfl
  | true =>
    intro i stream hget
    obtain ⟨hlt, -⟩ := List.getElem?_eq_some_iff.mp hget
    refine ⟨stream, ?_, rfl, List.prefix_rfl, id⟩
    show (s.streams ++ [_])[i]? = some stream
    rw [List.getElem?_append_left hlt, hget]

/-- `fclose` leaves the records in place. -/
theorem Current.extends_closed {i : Nat} {stream : LogStream Record} (h : s.Current i stream)
    (streams : t.streams = s.closed i stream) : Extends s t := by
  refine extends_set h.at_ ?_ ?_ ?_ streams
  · rfl
  · exact List.prefix_rfl
  · intro hopen
    cases hopen

/-- Every step. -/
theorem Step.extends (hstep : Step s a t) : Extends s t := by
  cases hstep with
  | stay tm opened stays => exact extends_of_streams_eq rfl
  | newDay tm opened i stream current day =>
    refine Extends.trans ?_ (extends_fopen _ _ opened)
    exact current.extends_closed rfl
  | newPart tm opened i stream current day split full =>
    refine Extends.trans ?_ (extends_fopen _ _ opened)
    exact current.extends_closed rfl
  | fputs record i stream current =>
    refine extends_set current.at_ ?_ ?_ ?_ rfl
    · rfl
    · exact List.prefix_append stream.records [record]
    · exact id
  | flush i stream current => exact extends_of_streams_eq rfl

end LogFiles

end ConcurrentServer.Log
