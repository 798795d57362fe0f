import ConcurrentServer.Log.DayFiles
import Mathlib.Data.List.Nodup

/-!
# Rotation by lines

`src/log/log.cpp:105–183`, `src/log/README.md:8–9`, for calls made one at a time, with dates that
do not decrease. `Rotation` is the purpose of the rotation, stated about a list of files: their
names are new, each has room for a bounded number of records, and together they hold the records
in order. Between two changes of the day the numbers of the parts grow with the count; across one
the date grows.
-/

namespace ConcurrentServer.Log
open ConcurrentServer.Base

/-! ### Lists of files -/

section Files

variable {Record : Type}

/-- Files in the order in which they were opened, each with its name and its records, when `count`
calls have been counted since the day changed on the date `since`, and the last call was made on
the date `last`. -/
structure Rotation (splitLines count : Int) (since last : MyTime)
    (files : List (FileName × List Record)) (written : List Record) : Prop where
  fresh : (files.map Prod.fst).Nodup
  valid : ∀ file ∈ files, file.1.Valid
  dates : ∀ file ∈ files, ∀ tm, file.1.date = some tm →
    tm < since ∨ tm.day = since.day ∧ tm ≤ last
  numbers : ∀ file ∈ files, ∀ tm number, file.1 = .part tm number → since ≤ tm →
    number * splitLines ≤ count
  limit : ∀ file ∈ files, (file.2.length : Int) ≤ splitLines
  records : files.flatMap Prod.snd = written

variable {splitLines count : Int} {since last tm : MyTime}
  {files : List (FileName × List Record)} {written : List Record}

namespace Rotation

/-- Time goes on, and more calls are counted. -/
theorem later (h : Rotation splitLines count since last files written) (hlast : last ≤ tm)
    {count' : Int} (hcount : count ≤ count') :
    Rotation splitLines count' since tm files written := by
  constructor
  · exact h.fresh
  · exact h.valid
  · intro file hfile d hd
    rcases h.dates file hfile d hd with hbefore | ⟨hday, hle⟩
    · exact Or.inl hbefore
    · exact Or.inr ⟨hday, hle.trans hlast⟩
  · intro file hfile d number hname hle
    exact (h.numbers file hfile d number hname hle).trans hcount
  · exact h.limit
  · exact h.records

/-- On another day of the month, and not before the last call, all files bear earlier dates. -/
theorem date_lt (h : Rotation splitLines count since last files written) (hlast : last ≤ tm)
    (hsince : since ≤ last) (hday : tm.day ≠ since.day) {file : FileName × List Record}
    (hfile : file ∈ files) {d : MyTime} (hd : file.1.date = some d) : d < tm := by
  rcases h.dates file hfile d hd with hbefore | ⟨hsame, hle⟩
  · exact hbefore.trans_le (hsince.trans hlast)
  · apply lt_of_le_of_ne (hle.trans hlast)
    intro heq
    rw [heq] at hsame
    exact hday hsame

/-- A file is opened whose name is new and fits the count and the dates. -/
theorem openFile (h : Rotation splitLines count since last files written) {name : FileName}
    (fresh : ∀ file ∈ files, file.1 ≠ name) (valid : name.Valid)
    (date : ∃ d, name.date = some d ∧ d.day = since.day ∧ d ≤ last)
    (number : ∀ tm n, name = .part tm n → n * splitLines ≤ count) (hsplit : 1 ≤ splitLines) :
    Rotation splitLines count since last (files ++ [(name, [])]) written := by
  constructor
  · rw [List.map_append, List.nodup_append]
    refine ⟨h.fresh, List.nodup_singleton name, ?_⟩
    intro a ha b hb
    obtain ⟨file, hfile, rfl⟩ := List.mem_map.mp ha
    rw [List.mem_singleton.mp hb]
    exact fresh file hfile
  · intro file hfile
    rcases List.mem_append.mp hfile with hold | hnew
    · exact h.valid file hold
    · rw [List.mem_singleton.mp hnew]
      exact valid
  · intro file hfile d hd
    rcases List.mem_append.mp hfile with hold | hnew
    · exact h.dates file hold d hd
    · obtain ⟨d', hd', hrest⟩ := date
      rw [List.mem_singleton.mp hnew, hd'] at hd
      cases hd
      exact Or.inr hrest
  · intro file hfile d n hname hle
    rcases List.mem_append.mp hfile with hold | hnew
    · exact h.numbers file hold d n hname hle
    · rw [List.mem_singleton.mp hnew] at hname
      exact number d n hname
  · intro file hfile
    rcases List.mem_append.mp hfile with hold | hnew
    · exact h.limit file hold
    · rw [List.mem_singleton.mp hnew]
      show (0 : Int) ≤ splitLines
      omega
  · rw [List.flatMap_append, h.records]
    exact List.append_nil written

/-- The day changes. -/
theorem newDay (h : Rotation splitLines count since last files written) (hvalid : tm.Valid)
    (hsplit : 1 ≤ splitLines) (hsince : since ≤ last) (hlast : last ≤ tm)
    (hday : tm.day ≠ since.day) :
    Rotation splitLines 0 tm tm (files ++ [(.daily tm, [])]) written := by
  have hlt : ∀ file ∈ files, ∀ d, file.1.date = some d → d < tm := fun file hfile d hd ↦
    h.date_lt hlast hsince hday hfile hd
  have hstart : Rotation splitLines 0 tm tm files written := by
    constructor
    · exact h.fresh
    · exact h.valid
    · intro file hfile d hd
      exact Or.inl (hlt file hfile d hd)
    · intro file hfile d number hname hle
      have hdate : file.1.date = some d := by rw [hname]; rfl
      exact absurd hle (not_le.mpr (hlt file hfile d hdate))
    · exact h.limit
    · exact h.records
  apply hstart.openFile
  · intro file hfile hname
    have hdate : file.1.date = some tm := by rw [hname]; rfl
    exact lt_irrefl tm (hlt file hfile tm hdate)
  · exact hvalid
  · exact ⟨tm, rfl, rfl, le_refl tm⟩
  · intro d n hname
    cases hname
  · exact hsplit

/-- The count reaches a multiple of `l_split_lines`. -/
theorem newPart (h : Rotation splitLines count since last files written) (hvalid : tm.Valid)
    (hsplit : 1 ≤ splitLines) (hcount : 0 ≤ count) (hsince : since ≤ last) (hlast : last ≤ tm)
    (hday : tm.day = since.day) (hfull : splitLines ∣ count + 1) :
    Rotation splitLines (count + 1) since tm
      (files ++ [(.part tm ((count + 1) / splitLines), [])]) written := by
  have hnumber : (count + 1) / splitLines * splitLines = count + 1 := Int.ediv_mul_cancel hfull
  have hlater := h.later hlast (Int.le_add_one (le_refl count))
  apply hlater.openFile
  · intro file hfile hname
    have hle := h.numbers file hfile tm _ hname (hsince.trans hlast)
    omega
  · exact ⟨hvalid, Int.ediv_nonneg (by omega) (by omega)⟩
  · exact ⟨tm, rfl, hday, le_refl tm⟩
  · intro d n hname
    cases hname
    exact le_of_eq hnumber
  · exact hsplit

/-- A record goes to the newest file, which has room for it. -/
theorem write {older : List (FileName × List Record)} {name : FileName} {records : List Record}
    (h : Rotation splitLines count since last (older ++ [(name, records)]) written)
    (room : (records.length : Int) < splitLines) (record : Record) :
    Rotation splitLines count since last (older ++ [(name, records ++ [record])])
      (written ++ [record]) := by
  have hnamed : ∀ file ∈ older ++ [(name, records ++ [record])],
      ∃ file' ∈ older ++ [(name, records)], file'.1 = file.1 := by
    intro file hfile
    rcases List.mem_append.mp hfile with hold | hnew
    · exact ⟨file, List.mem_append_left _ hold, rfl⟩
    · rw [List.mem_singleton.mp hnew]
      exact ⟨(name, records), List.mem_append_right _ (List.mem_singleton_self _), rfl⟩
  constructor
  · have hfresh := h.fresh
    rw [List.map_append] at hfresh ⊢
    exact hfresh
  · intro file hfile
    obtain ⟨file', hfile', hname⟩ := hnamed file hfile
    rw [← hname]
    exact h.valid file' hfile'
  · intro file hfile d hd
    obtain ⟨file', hfile', hname⟩ := hnamed file hfile
    rw [← hname] at hd
    exact h.dates file' hfile' d hd
  · intro file hfile d number hpart hle
    obtain ⟨file', hfile', hname⟩ := hnamed file hfile
    rw [← hname] at hpart
    exact h.numbers file' hfile' d number hpart hle
  · intro file hfile
    rcases List.mem_append.mp hfile with hold | hnew
    · exact h.limit file (List.mem_append_left _ hold)
    · rw [List.mem_singleton.mp hnew, List.length_append]
      show ((records.length + 1 : Nat) : Int) ≤ splitLines
      omega
  · have hrecords := h.records
    rw [List.flatMap_append, List.flatMap_singleton] at hrecords ⊢
    rw [← hrecords, List.append_assoc]

end Rotation

end Files

/-! ### The logger's files -/

namespace LogFiles

variable {Record : Type}

/-- Each file with its name and its records. -/
def contents (s : LogFiles Record) : List (FileName × List Record) :=
  s.streams.map fun stream ↦ (stream.name, stream.records)

variable {s t : LogFiles Record}

/-- `fclose` changes no file. -/
theorem Current.contents_closed {i : Nat} {stream : LogStream Record} (h : s.Current i stream)
    (streams : t.streams = s.closed i stream) : t.contents = s.contents := by
  rw [contents, streams, contents]
  exact map_setThread_eq _ h.at_ rfl

/-- `fopen` appends an empty file. -/
theorem contents_fopen (s : LogFiles Record) (name : FileName) :
    (s.fopen name true).contents = s.contents ++ [(name, [])] := by
  show (s.streams ++ [_]).map _ = _
  rw [List.map_append]
  rfl

/-- The files are as they should be, and the newest is the current one, with room for the records
of the calls that are still to be counted and of `room` more. -/
structure Rotating (s : LogFiles Record) (since last : MyTime) (written : List Record)
    (room : Int) : Prop where
  files : Rotation s.lSplitLines s.lCount since last s.contents written
  split : 1 ≤ s.lSplitLines
  count : 0 ≤ s.lCount
  today : s.lToday = since.day
  order : since ≤ last
  newest : ∃ (older : List (LogStream Record)) (stream : LogStream Record),
    s.streams = older ++ [stream] ∧ s.Current older.length stream ∧
    (stream.records.length : Int) ≤ s.lCount % s.lSplitLines + room

variable {since last tm : MyTime} {written : List Record}

/-- After `init`. -/
theorem rotating_init {fileName : List Char} {splitLines : Int} {opened : Bool}
    (h : init (some fileName) splitLines tm opened = .ok (some s)) (hsplit : 1 ≤ splitLines)
    (hvalid : tm.Valid) : s.Rotating tm tm [] 1 := by
  obtain ⟨dirName, baseName, rfl⟩ := eq_of_init h
  have hfresh : Rotation splitLines 0 tm tm [] ([] : List Record) := by
    constructor
    · exact List.nodup_nil
    · exact List.forall_mem_nil _
    · exact List.forall_mem_nil _
    · exact List.forall_mem_nil _
    · exact List.forall_mem_nil _
    · rfl
  constructor
  · apply hfresh.openFile
    · exact List.forall_mem_nil _
    · exact hvalid
    · exact ⟨tm, rfl, rfl, le_refl tm⟩
    · intro d n hname
      cases hname
    · exact hsplit
  · exact hsplit
  · exact Int.le_refl 0
  · rfl
  · exact le_refl tm
  · refine ⟨[], ⟨.daily tm, [], true⟩, rfl, ⟨rfl, rfl, rfl⟩, ?_⟩
    show (0 : Int) ≤ 0 % splitLines + 1
    rw [Int.zero_emod]
    decide

/-- A file that was just opened is the newest and is empty. -/
theorem newest_fopen (s : LogFiles Record) (name : FileName) {count splitLines : Int}
    (hsplit : 1 ≤ splitLines) : ∃ (older : List (LogStream Record)) (stream : LogStream Record),
      (s.fopen name true).streams = older ++ [stream] ∧
      (s.fopen name true).Current older.length stream ∧
      (stream.records.length : Int) ≤ count % splitLines + 0 := by
  refine ⟨s.streams, ⟨name, [], true⟩, rfl, current_fopen s name, ?_⟩
  have hmod := Int.emod_nonneg count (show splitLines ≠ 0 by omega)
  show (0 : Int) ≤ count % splitLines + 0
  omega

/-- The count of a call, after which there is room for its record. -/
theorem Rotating.afterCount (h : s.Rotating since last written 1) (hvalid : tm.Valid)
    (hlast : last ≤ tm) :
    ∃ u since', Step s (.count tm true) u ∧ u.Rotating since' tm written 0 := by
  obtain ⟨older, stream, hstreams, current, hroom⟩ := h.newest
  have hsplit := h.split
  have hcount := h.count
  have hmod : (s.lCount + 1).tmod s.lSplitLines = (s.lCount + 1) % s.lSplitLines :=
    Int.tmod_eq_emod_of_nonneg (by omega)
  by_cases hday : s.lToday = tm.day
  · by_cases hfull : (s.lCount + 1) % s.lSplitLines = 0
    · refine ⟨_, since, .newPart tm true older.length stream current hday (by omega)
        (hmod.trans hfull), ?_⟩
      have hdiv : (s.lCount + 1).tdiv s.lSplitLines = (s.lCount + 1) / s.lSplitLines :=
        Int.tdiv_eq_ediv_of_nonneg (by omega)
      have hfiles := h.files.newPart hvalid hsplit hcount h.order hlast
        (hday.symm.trans h.today) (Int.dvd_of_emod_eq_zero hfull)
      constructor
      · rw [contents_fopen, current.contents_closed rfl, hdiv]
        exact hfiles
      · exact hsplit
      · show 0 ≤ s.lCount + 1
        omega
      · exact h.today
      · exact h.order.trans hlast
      · exact newest_fopen _ _ hsplit
    · refine ⟨_, since, .stay tm true ⟨hday, by omega, fun hzero ↦ hfull (hmod ▸ hzero)⟩, ?_⟩
      constructor
      · exact h.files.later hlast (by show s.lCount ≤ s.lCount + 1; omega)
      · exact hsplit
      · show 0 ≤ s.lCount + 1
        omega
      · exact h.today
      · exact h.order.trans hlast
      · refine ⟨older, stream, hstreams, ⟨current.lFp, current.at_, current.isOpen⟩, ?_⟩
        show (stream.records.length : Int) ≤ (s.lCount + 1) % s.lSplitLines + 0
        have hnext := emod_succ (a := s.lCount) hsplit hfull
        omega
  · refine ⟨_, tm, .newDay tm true older.length stream current hday, ?_⟩
    have hother : tm.day ≠ since.day := by
      intro heq
      exact hday (h.today.trans heq.symm)
    have hfiles := h.files.newDay hvalid hsplit h.order hlast hother
    constructor
    · rw [contents_fopen, current.contents_closed rfl]
      exact hfiles
    · exact hsplit
    · exact Int.le_refl 0
    · rfl
    · exact le_refl tm
    · exact newest_fopen _ _ hsplit

/-- `fputs` puts the record where there is room for it. -/
theorem Rotating.afterFputs (h : s.Rotating since last written 0) (record : Record) :
    ∃ t, Step s (.fputs record) t ∧ t.Rotating since last (written ++ [record]) 1 := by
  obtain ⟨older, stream, hstreams, current, hroom⟩ := h.newest
  have hsplit := h.split
  have hlt := Int.emod_lt_of_pos s.lCount (show 0 < s.lSplitLines by omega)
  have hset : ∀ new, s.streams.set older.length new = older ++ [new] := by
    intro new
    rw [hstreams]
    exact set_length_append_singleton older stream new
  have hfiles := h.files
  refine ⟨_, .fputs record older.length stream current, ?_⟩
  constructor
  · unfold contents at hfiles ⊢
    simp only [hset]
    rw [hstreams] at hfiles
    rw [List.map_append] at hfiles ⊢
    exact hfiles.write (by omega) record
  · exact hsplit
  · exact h.count
  · exact h.today
  · exact h.order
  · refine ⟨older, _, hset _, current.write _, ?_⟩
    show ((stream.records ++ [record]).length : Int) ≤ s.lCount % s.lSplitLines + 1
    rw [List.length_append]
    show ((stream.records.length + 1 : Nat) : Int) ≤ s.lCount % s.lSplitLines + 1
    omega

/-- A step leaves `l_split_lines`. -/
theorem Step.lSplitLines_eq {a : LogSection Record} (h : Step s a t) :
    t.lSplitLines = s.lSplitLines := by
  cases h with
  | stay | fputs | flush => rfl
  | newDay tm opened | newPart tm opened =>
    cases opened with
    | false | true => rfl

end LogFiles

section Calls

variable {Text : Type}

/-- Calls with dates that do not decrease, each of whose rotations opens its file. -/
theorem LogFiles.Rotating.afterCalls {calls : List (LogCall Text)} {s : LogFiles (LogRecord Text)}
    {since last : MyTime} {written : List (LogRecord Text)}
    (h : s.Rotating since last written 1) (hvalid : ∀ call ∈ calls, call.record.tm.Valid)
    (hopened : ∀ call ∈ calls, call.opened = true)
    (hdates : (last :: calls.map fun call ↦ call.record.tm).Pairwise (· ≤ ·)) :
    ∃ t since' last', run writeLog s calls = some t ∧ t.lSplitLines = s.lSplitLines ∧
      t.Rotating since' last' (written ++ calls.map fun call ↦ call.record) 1 := by
  induction calls generalizing s since last written with
  | nil =>
    rw [List.map_nil, List.append_nil]
    exact ⟨s, since, last, rfl, rfl, h⟩
  | cons call calls ih =>
    rw [List.map_cons, List.pairwise_cons] at hdates
    have hlast := hdates.1 call.record.tm List.mem_cons_self
    obtain ⟨u, since', hcount, hu⟩ := h.afterCount (hvalid call List.mem_cons_self) hlast
    obtain ⟨v, hfputs, hv⟩ := hu.afterFputs call.record
    have hstep : s.writeLog call = some v := by
      rw [← hopened call List.mem_cons_self] at hcount
      exact writeLog_eq_some.mpr ⟨u, hcount, hfputs⟩
    have htail : ∀ c ∈ calls, c ∈ call :: calls := fun c hc ↦ List.mem_cons_of_mem call hc
    obtain ⟨t, since'', last', hrun, hsplit, ht⟩ := ih hv (fun c hc ↦ hvalid c (htail c hc))
      (fun c hc ↦ hopened c (htail c hc)) hdates.2
    refine ⟨t, since'', last', ?_, ?_, ?_⟩
    · exact Option.bind_eq_some_iff.mpr ⟨v, hstep, hrun⟩
    · rw [hsplit, hfputs.lSplitLines_eq, hcount.lSplitLines_eq]
    · rw [List.map_cons, List.append_cons]
      exact ht

/-- Calls made one at a time, with dates that do not decrease and rotations that open their
files, leave files with different paths, each with at most `l_split_lines` records, that together
hold the records in the order of the calls. -/
theorem files_rotate_by_lines {fileName : List Char} {splitLines : Int} {tm : MyTime}
    {s : LogFiles (LogRecord Text)}
    (hinit : LogFiles.init (some fileName) splitLines tm true = .ok (some s))
    (hsplit : 1 ≤ splitLines) (calls : List (LogCall Text))
    (hvalid : tm.Valid ∧ ∀ call ∈ calls, call.record.tm.Valid)
    (hopened : ∀ call ∈ calls, call.opened = true)
    (hdates : (tm :: calls.map fun call ↦ call.record.tm).Pairwise (· ≤ ·)) :
    ∃ t, run LogFiles.writeLog s calls = some t ∧
      (t.streams.map fun stream ↦ stream.name.path s.lDirName s.lFileName).Nodup ∧
      (∀ stream ∈ t.streams, (stream.records.length : Int) ≤ splitLines) ∧
      t.streams.flatMap (fun stream ↦ stream.records) = calls.map fun call ↦ call.record := by
  have hstart := LogFiles.rotating_init hinit hsplit hvalid.1
  obtain ⟨t, since, last, hrun, hlines, ht⟩ := hstart.afterCalls hvalid.2 hopened hdates
  have hstreams : s.lSplitLines = splitLines := by
    obtain ⟨dirName, baseName, rfl⟩ := LogFiles.eq_of_init hinit
    rfl
  have hfiles := ht.files
  rw [hlines, hstreams] at hfiles
  have hmem : ∀ stream ∈ t.streams, (stream.name, stream.records) ∈ t.contents := by
    intro stream hstream
    exact List.mem_map.mpr ⟨stream, hstream, rfl⟩
  refine ⟨t, hrun, ?_, ?_, ?_⟩
  · have hnames : (t.streams.map fun stream ↦ stream.name).Nodup := by
      have hfresh := hfiles.fresh
      rwa [LogFiles.contents, List.map_map] at hfresh
    have hpaths : (t.streams.map fun stream ↦ stream.name.path s.lDirName s.lFileName) =
        (t.streams.map fun stream ↦ stream.name).map fun name ↦
          name.path s.lDirName s.lFileName := by
      rw [List.map_map]
      rfl
    rw [hpaths]
    apply hnames.map_on
    intro name hname name' hname' heq
    obtain ⟨stream, hstream, rfl⟩ := List.mem_map.mp hname
    obtain ⟨stream', hstream', rfl⟩ := List.mem_map.mp hname'
    exact (hfiles.valid _ (hmem stream hstream)).path_inj
      (hfiles.valid _ (hmem stream' hstream')) heq
  · intro stream hstream
    exact hfiles.limit _ (hmem stream hstream)
  · have hrecords := hfiles.records
    rwa [LogFiles.contents, List.flatMap_map] at hrecords

/-- Rotations by the count, by the day, and by both at once, over the end of a year. -/
def rotationsOverNewYear : List (LogCall Nat) :=
  [⟨⟨⟨2024, 12, 31⟩, 1⟩, true⟩, ⟨⟨⟨2024, 12, 31⟩, 2⟩, true⟩, ⟨⟨⟨2024, 12, 31⟩, 3⟩, true⟩,
    ⟨⟨⟨2025, 1, 1⟩, 4⟩, true⟩, ⟨⟨⟨2025, 1, 1⟩, 5⟩, true⟩, ⟨⟨⟨2025, 1, 1⟩, 6⟩, true⟩,
    ⟨⟨⟨2025, 2, 1⟩, 7⟩, true⟩]

/-- The files after those calls. -/
theorem files_rotate_over_new_year :
    ∃ t, run LogFiles.writeLog
        (⟨['/'], ['a'], 0, 31, 2, [⟨.daily ⟨2024, 12, 31⟩, [], true⟩], some 0⟩ :
          LogFiles (LogRecord Nat)) rotationsOverNewYear = some t ∧
      (t.streams.map fun stream ↦ stream.name.path ['/'] ['a']).Nodup ∧
      (∀ stream ∈ t.streams, (stream.records.length : Int) ≤ 2) ∧
      t.streams.flatMap (fun stream ↦ stream.records) =
        rotationsOverNewYear.map fun call ↦ call.record := by
  have hinit : LogFiles.init (some ['/', 'a']) 2 ⟨2024, 12, 31⟩ true =
      .ok (some (⟨['/'], ['a'], 0, 31, 2, [⟨.daily ⟨2024, 12, 31⟩, [], true⟩], some 0⟩ :
        LogFiles (LogRecord Nat))) := by
    decide +kernel
  exact files_rotate_by_lines hinit (by decide) rotationsOverNewYear (by decide +kernel)
    (by decide +kernel) (by decide +kernel)

end Calls

end ConcurrentServer.Log
