import ConcurrentServer.Log.FileNames

/-!
# Log files by day

`src/log/log.cpp:153–217`, `src/log/README.md:8`, for calls of `write_log` made one at a time
without a queue. `l_today` holds the day of the month only, so a call on the same day of another
month finds the test for a rotation false and writes to the file of the old date.
-/

namespace ConcurrentServer.Log
open ConcurrentServer.Base

variable {Text : Type}

/-- A formatted record, which begins with the date of its call. -/
structure LogRecord (Text : Type) where
  tm : MyTime
  text : Text
  deriving DecidableEq, Repr

/-- A call of `write_log`, and whether `fopen` would succeed in it. -/
structure LogCall (Text : Type) where
  record : LogRecord Text
  opened : Bool
  deriving DecidableEq, Repr

namespace LogFiles

/-- `write_log` without a queue; `src/log/log.cpp:153–217`. -/
def writeLog (s : LogFiles (LogRecord Text)) (call : LogCall Text) :
    Option (LogFiles (LogRecord Text)) :=
  (s.count call.record.tm call.opened).bind fun s ↦ s.fputs call.record

variable {s t : LogFiles (LogRecord Text)} {call : LogCall Text}

/-- A call is its two critical sections. -/
theorem writeLog_eq_some : s.writeLog call = some t ↔
    ∃ u, Step s (.count call.record.tm call.opened) u ∧ Step u (.fputs call.record) t := by
  rw [writeLog, Option.bind_eq_some_iff]
  constructor
  · rintro ⟨u, hcount, hfputs⟩
    exact ⟨u, step_iff.mp hcount, step_iff.mp hfputs⟩
  · rintro ⟨u, hcount, hfputs⟩
    exact ⟨u, step_iff.mpr hcount, step_iff.mpr hfputs⟩

/-- A call keeps the streams and what they hold. -/
theorem extends_of_writeLog (h : s.writeLog call = some t) : Extends s t := by
  obtain ⟨u, hcount, hfputs⟩ := writeLog_eq_some.mp h
  exact hcount.extends.trans hfputs.extends

/-! ### Records and dates -/

/-- Every record is in a file whose name begins with its date. -/
def Filed (s : LogFiles (LogRecord Text)) : Prop :=
  ∀ stream ∈ s.streams, ∀ record ∈ stream.records, stream.name.date = some record.tm

/-- The date in the name of the file that `l_fp` points to. -/
def fileDate (s : LogFiles (LogRecord Text)) : Option MyTime :=
  s.lFp.bind fun i ↦ s.streams[i]?.bind fun stream ↦ stream.name.date

/-- The call rotates to a file that opens, or it stays and bears the date of the open file. -/
def OwnDay (s : LogFiles (LogRecord Text)) (call : LogCall Text) : Prop :=
  s.Rotates call.record.tm ∧ call.opened = true ∨
    s.Stays call.record.tm ∧ s.fileDate = some call.record.tm

instance (s : LogFiles (LogRecord Text)) (call : LogCall Text) : Decidable (s.OwnDay call) :=
  inferInstanceAs (Decidable (_ ∨ _))

/-- The date of the current file. -/
theorem Current.fileDate_eq {i : Nat} {stream : LogStream (LogRecord Text)}
    (h : s.Current i stream) : s.fileDate = stream.name.date := by
  rw [fileDate, h.lFp, Option.bind_some, h.at_, Option.bind_some]

/-- Records that are filed were filed before. -/
theorem Extends.filed (h : Extends s t) (ht : t.Filed) : s.Filed := by
  intro stream hmem record hrecord
  obtain ⟨i, hget⟩ := List.mem_iff_getElem?.mp hmem
  obtain ⟨stream', hget', hname, hrecords, -⟩ := h i stream hget
  rw [← hname]
  exact ht stream' (List.mem_of_getElem? hget') record (hrecords.subset hrecord)

/-- A record that goes to a file of its date is filed. -/
theorem Filed.fputs {i : Nat} {stream : LogStream (LogRecord Text)} {record : LogRecord Text}
    (h : s.Filed) (current : s.Current i stream) (date : stream.name.date = some record.tm) :
    Filed { s with
      streams := s.streams.set i { stream with records := stream.records ++ [record] } } := by
  intro other hmem r hr
  rcases List.mem_or_eq_of_mem_set hmem with hbefore | hset
  · exact h other hbefore r hr
  · rw [hset] at hr ⊢
    rcases List.mem_append.mp hr with hold | hnew
    · exact h stream (List.mem_of_getElem? current.at_) r hold
    · rw [List.mem_singleton.mp hnew]
      exact date

/-- A rotation moves no record. -/
theorem Filed.rotated {i : Nat} {stream : LogStream (LogRecord Text)} (h : s.Filed)
    (current : s.Current i stream) (streams : t.streams = s.closed i stream) (name : FileName)
    (opened : Bool) : (t.fopen name opened).Filed := by
  have hclosed : t.Filed := by
    intro other hmem r hr
    rw [streams] at hmem
    rcases List.mem_or_eq_of_mem_set hmem with hbefore | hset
    · exact h other hbefore r hr
    · rw [hset] at hr ⊢
      exact h stream (List.mem_of_getElem? current.at_) r hr
  cases opened with
  | false => exact hclosed
  | true =>
    intro other hmem r hr
    rcases List.mem_append.mp hmem with hold | hnew
    · exact hclosed other hold r hr
    · rw [List.mem_singleton.mp hnew] at hr
      cases hr

/-- The records are filed and a stream is open. -/
def Filing (s : LogFiles (LogRecord Text)) : Prop := s.Filed ∧ ∃ i stream, s.Current i stream

/-- After `init`. -/
theorem filing_init {fileName : Option (List Char)} {splitLines : Int} {tm : MyTime}
    {opened : Bool} (h : init fileName splitLines tm opened = .ok (some s)) : s.Filing := by
  obtain ⟨dirName, baseName, rfl⟩ := eq_of_init h
  refine ⟨?_, 0, _, rfl, rfl, rfl⟩
  intro stream hmem record hrecord
  rw [List.mem_singleton.mp hmem] at hrecord
  cases hrecord

/-- A call that writes to a current stream of its date files its record. -/
theorem filing_fputs {i : Nat} {stream : LogStream (LogRecord Text)} {record : LogRecord Text}
    (h : s.Filed) (current : s.Current i stream) (date : stream.name.date = some record.tm) :
    ∃ t, Step s (.fputs record) t ∧ t.Filing :=
  ⟨_, .fputs record i stream current, h.fputs current date, i, _, current.write _⟩

/-- A call under the condition can be made and files its record. -/
theorem Filing.move (h : s.Filing) (hok : s.OwnDay call) :
    ∃ t, s.writeLog call = some t ∧ t.Filing := by
  obtain ⟨hfiled, i, stream, current⟩ := h
  rcases hok with ⟨hrotates, hopened⟩ | ⟨hstays, hdate⟩
  · have hrotated : ∃ (u : LogFiles (LogRecord Text)) (name : FileName),
        Step s (.count call.record.tm call.opened) (u.fopen name true) ∧
        (u.fopen name true).Filed ∧ name.date = some call.record.tm := by
      rw [hopened]
      by_cases hday : s.lToday = call.record.tm.day
      · rcases hrotates with hother | ⟨hsplit, hfull⟩
        · exact absurd hday hother
        · exact ⟨_, _, .newPart _ true i stream current hday hsplit hfull,
            hfiled.rotated current rfl _ true, rfl⟩
      · exact ⟨_, _, .newDay _ true i stream current hday, hfiled.rotated current rfl _ true, rfl⟩
    obtain ⟨u, name, hcount, hu, hname⟩ := hrotated
    obtain ⟨t, hfputs, ht⟩ := filing_fputs hu (current_fopen u name) hname
    exact ⟨t, writeLog_eq_some.mpr ⟨_, hcount, hfputs⟩, ht⟩
  · have hcurrent : Current { s with lCount := s.lCount + 1 } i stream :=
      ⟨current.lFp, current.at_, current.isOpen⟩
    have hcounted : Filed { s with lCount := s.lCount + 1 } := hfiled
    obtain ⟨t, hfputs, ht⟩ := filing_fputs hcounted hcurrent (current.fileDate_eq ▸ hdate)
    exact ⟨t, writeLog_eq_some.mpr ⟨_, .stay _ call.opened hstays, hfputs⟩, ht⟩

/-- A call that files its record meets the condition. -/
theorem ownDay_of_writeLog (hstep : s.writeLog call = some t) (ht : t.Filed) :
    s.OwnDay call := by
  obtain ⟨u, hcount, hfputs⟩ := writeLog_eq_some.mp hstep
  generalize hsection : LogSection.fputs call.record = a at hfputs
  cases hfputs with
  | fputs record j other hother =>
    cases hsection
    cases hcount with
    | stay tm opened stays =>
      have hcurrent : s.Current j other := ⟨hother.lFp, hother.at_, hother.isOpen⟩
      obtain ⟨hlt, -⟩ := List.getElem?_eq_some_iff.mp hother.at_
      have hmem : { other with records := other.records ++ [call.record] } ∈
          s.streams.set j { other with records := other.records ++ [call.record] } :=
        List.mem_set hlt _
      have hdate := ht _ hmem call.record (List.mem_append_right _ (List.mem_singleton_self _))
      exact Or.inr ⟨stays, hcurrent.fileDate_eq.trans hdate⟩
    | newDay tm opened i stream current day =>
      refine Or.inl ⟨Or.inl day, ?_⟩
      exact opened_of_current hother
    | newPart tm opened i stream current day split full =>
      refine Or.inl ⟨Or.inr ⟨split, full⟩, ?_⟩
      exact opened_of_current hother
  | stay | newDay | newPart | flush => cases hsection

end LogFiles

/-- Whatever calls are made one after another, each record goes to a file that is named after
its date exactly when every call rotates to a file that opens, or bears the date of the file that
is open. -/
theorem records_filed_by_day_iff {fileName : List Char} {splitLines : Int} {tm : MyTime}
    {s : LogFiles (LogRecord Text)}
    (hinit : LogFiles.init (some fileName) splitLines tm true = .ok (some s))
    (calls : List (LogCall Text)) :
    (∃ t, run LogFiles.writeLog s calls = some t ∧ t.Filed) ↔
      Admits LogFiles.writeLog LogFiles.OwnDay s calls := by
  apply run_keeps_iff (G := LogFiles.Filing)
  · intro s hs
    exact hs.1
  · intro s call hs hok
    exact hs.move hok
  · intro s call t _ hstep ht
    exact LogFiles.ownDay_of_writeLog hstep ht
  · intro s call t hstep ht
    exact (LogFiles.extends_of_writeLog hstep).filed ht
  · exact LogFiles.filing_init hinit

/-- A logger with a file of the fifth of January, for two lines a part. -/
def fifthJanuary : LogFiles (LogRecord Nat) :=
  ⟨['/'], ['a'], 0, 5, 2, [⟨.daily ⟨2024, 1, 5⟩, [], true⟩], some 0⟩

/-- What a call on a date logs, with its number. -/
def callOn (month day : Int) (text : Nat) : LogCall Nat := ⟨⟨⟨2024, month, day⟩, text⟩, true⟩

/-- Calls on two days, over a line boundary and a change of the month. -/
theorem calls_over_month_end_filed :
    ∃ t, run LogFiles.writeLog fifthJanuary
        [callOn 1 5 1, callOn 1 5 2, callOn 1 31 3, callOn 2 1 4] = some t ∧ t.Filed := by
  have hinit : LogFiles.init (some ['/', 'a']) 2 ⟨2024, 1, 5⟩ true = .ok (some fifthJanuary) := by
    decide +kernel
  have hok : Admits LogFiles.writeLog LogFiles.OwnDay fifthJanuary
      [callOn 1 5 1, callOn 1 5 2, callOn 1 31 3, callOn 2 1 4] := by
    decide +kernel
  exact (records_filed_by_day_iff hinit _).mpr hok

/-- After a month without a call, a record of the fifth of February goes to January's file. -/
theorem month_later_same_file :
    ¬ ∀ (fileName : List Char) (splitLines : Int) (tm : MyTime) (s : LogFiles (LogRecord Nat))
      (calls : List (LogCall Nat)),
      LogFiles.init (some fileName) splitLines tm true = .ok (some s) →
      (tm :: calls.map fun call ↦ call.record.tm).Pairwise (· ≤ ·) →
      (∀ call ∈ calls, call.opened = true) →
      ∃ t, run LogFiles.writeLog s calls = some t ∧ t.Filed := by
  intro hclaim
  have hinit : LogFiles.init (some ['/', 'a']) 2 ⟨2024, 1, 5⟩ true = .ok (some fifthJanuary) := by
    decide +kernel
  obtain ⟨t, ht, hfiled⟩ := hclaim ['/', 'a'] 2 ⟨2024, 1, 5⟩ fifthJanuary [callOn 2 5 1] hinit
    (by decide +kernel) (by decide +kernel)
  cases ht
  have hdate := hfiled ⟨.daily ⟨2024, 1, 5⟩, [⟨⟨2024, 2, 5⟩, 1⟩], true⟩
    (List.mem_singleton_self _) ⟨⟨2024, 2, 5⟩, 1⟩ (List.mem_singleton_self _)
  cases hdate

end ConcurrentServer.Log
