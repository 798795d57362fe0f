import ConcurrentServer.Log.LogOrder

/-!
# The line limit with a queue

`src/log/log.cpp:157–183, 205–211`, `src/log/log.h:73–77`, `src/log/README.md:4–9`, on a single
day. A record is counted, and the file changed, when a thread enters `write_log`; it is written
later, by the writer, to the file that is open by then. A file stays within `l_split_lines` when
each rotation finds every record that was counted before it written.
-/

namespace ConcurrentServer.Log
open ConcurrentServer.Base

variable {Text : Type}

namespace LogPc

/-- The date of a call that has still to be counted. -/
def date : LogPc Text → Option MyTime
  | .lockCount _ tm | .count _ tm => some tm
  | .idle | .lockBuf _ | .format _ | .copy _ | .loop _ _ => none

/-- The record of a call that has been counted. -/
def counted? : LogPc Text → Option (Entry Text)
  | .lockBuf entry | .format entry | .copy entry | .loop _ entry => some entry
  | .idle | .lockCount _ _ | .count _ _ => none

/-- The count is the next statement. -/
def counts : LogPc Text → Bool
  | .count _ _ => true
  | .idle | .lockCount _ _ | .lockBuf _ | .format _ | .copy _ | .loop _ _ => false

end LogPc

namespace AsyncLog

variable {T : Type} {s t : AsyncLog T} {a : LogAction T}

/-- Once the flag is set the writer gets no further record to write. -/
theorem Step.tested_le (h : Step s a t) (stop : s.isThreadStop = true) :
    t.writer.tested.length ≤ s.writer.tested.length := by
  cases h with
  | log | retry | destroy | stop | join => exact Nat.le_refl _
  | pushed | refused | notify =>
    apply Nat.le_of_eq
    exact congrArg List.length (tested_notify s.writer)
  | empty | block | take | fail | drop | fputs => exact Nat.zero_le _
  | pass singleLine at_ run =>
    rw [run] at stop
    cases stop

/-- Only the destructor sets the flag. -/
theorem Step.isThreadStop_eq (h : Step s a t) (other : a ≠ .destructor) :
    t.isThreadStop = s.isThreadStop := by
  cases h with
  | stop | notify | join => exact absurd rfl other
  | _ => rfl

end AsyncLog

namespace LogSystem

/-- Calls read this date. -/
def OnDay (tm : MyTime) : LogSystemAction Text → Prop
  | .log _ _ tm' => tm' = tm
  | .thread _ _ | .writer | .destroy | .destructor => True

/-- A count that reaches a multiple of `l_split_lines` finds every record that was counted before
written, or `is_thread_stop` set. -/
def RotatesWritten (s : LogSystem Text) : LogSystemAction Text → Prop
  | .thread i _ => (s.threads i).counts = true → (s.lCount + 1).tmod s.lSplitLines = 0 →
    s.asyncLog.isThreadStop = true ∨ (s.asyncLog.lFp.length : Int) = s.lCount
  | .log _ _ _ | .writer | .destroy | .destructor => True

instance (tm : MyTime) (a : LogSystemAction Text) : Decidable (OnDay tm a) :=
  match a with
  | .log _ _ tm' => inferInstanceAs (Decidable (tm' = tm))
  | .thread _ _ | .writer | .destroy | .destructor => inferInstanceAs (Decidable True)

instance (s : LogSystem Text) (a : LogSystemAction Text) : Decidable (s.RotatesWritten a) :=
  match a with
  | .thread i _ => inferInstanceAs (Decidable ((s.threads i).counts = true →
      (s.lCount + 1).tmod s.lSplitLines = 0 →
      s.asyncLog.isThreadStop = true ∨ (s.asyncLog.lFp.length : Int) = s.lCount))
  | .log _ _ _ | .writer | .destroy | .destructor => inferInstanceAs (Decidable True)

variable {s t : LogSystem Text} {a : LogSystemAction Text} {tm : MyTime} {splitLines : Int}

/-! ### One day -/

/-- Every call that has still to be counted has read the date of the day. -/
structure OneDay (s : LogSystem Text) (tm : MyTime) (splitLines : Int) : Prop where
  today : s.lToday = tm.day
  dates : ∀ i tm', (s.threads i).date = some tm' → tm' = tm
  split : s.lSplitLines = splitLines

/-- A count that finds no change of the day. -/
theorem count_of_day (day : s.lToday = tm.day) {opened : Bool} {u : LogSystem Text}
    (h : s.count tm opened = some u) :
    (s.lCount + 1).tmod s.lSplitLines ≠ 0 ∧ u = { s with lCount := s.lCount + 1 } ∨
    (s.lCount + 1).tmod s.lSplitLines = 0 ∧ s.isNull = false ∧ u = { s with
      lCount := s.lCount + 1
      files := if opened then ⟨.part tm ((s.lCount + 1).tdiv s.lSplitLines), []⟩ :: s.files
        else s.files
      isNull := !opened } := by
  rcases count_cases h with ⟨-, -, hwithin, hu⟩ | ⟨-, hother, -⟩ | ⟨hnull, hfull, hu⟩
  · exact Or.inl ⟨hwithin, hu⟩
  · exact absurd day hother
  · exact Or.inr ⟨hfull.2.2, hnull, hu⟩

/-- A thread moves on with the date that it had, or without one. -/
theorem OneDay.keep (h : s.OneDay tm splitLines) {i : Nat} {pc : LogPc Text}
    (date : ∀ tm', pc.date = some tm' → tm' = tm)
    (threads : t.threads = Function.update s.threads i pc) (today : t.lToday = s.lToday)
    (split : t.lSplitLines = s.lSplitLines) : t.OneDay tm splitLines := by
  constructor
  · rw [today]
    exact h.today
  · intro j tm' hj
    rw [threads] at hj
    by_cases hji : j = i
    · rw [hji, Function.update_self] at hj
      exact date tm' hj
    · rw [Function.update_of_ne hji] at hj
      exact h.dates j tm' hj
  · rw [split]
    exact h.split

/-- The day of a thread that counts. -/
theorem OneDay.day (h : s.OneDay tm splitLines) {i : Nat} {entry : Entry Text} {tm' : MyTime}
    (at_ : s.threads i = .count entry tm') : s.lToday = tm'.day := by
  rw [h.today, h.dates i tm' (by rw [at_]; rfl)]

/-- Every step. -/
theorem OneDay.step (h : s.OneDay tm splitLines) (hok : OnDay tm a) (hstep : Step s a t) :
    t.OneDay tm splitLines := by
  cases hstep with
  | log i text tm' at_ =>
    refine h.keep (i := i) ?_ rfl rfl rfl
    intro tm'' hdate
    cases hdate
    exact hok
  | lockCount i opened entry tm' at_ free =>
    refine h.keep (i := i) ?_ rfl rfl rfl
    intro tm'' hdate
    exact h.dates i tm'' (by rw [at_]; exact hdate)
  | count i opened entry tm' u at_ counted =>
    have hlines : u.lToday = s.lToday ∧ u.lSplitLines = s.lSplitLines := by
      rcases count_of_day (h.day at_) counted with ⟨-, rfl⟩ | ⟨-, -, rfl⟩
      · exact ⟨rfl, rfl⟩
      · exact ⟨rfl, rfl⟩
    refine h.keep (by simp [LogPc.date]) (threads_count counted i (.lockBuf entry)) hlines.1
      hlines.2
  | lockBuf | format | copy | again | finish =>
    exact h.keep (by simp [LogPc.date]) rfl rfl rfl
  | fputs | writer | destructor => exact ⟨h.today, h.dates, h.split⟩

/-! ### What has been counted -/

/-- The records of the calls that were counted; those that are on their way and those that were
pushed are among them. -/
structure Counted (s : LogSystem Text) (l : List (Entry Text)) : Prop where
  length : (l.length : Int) = s.lCount
  onTheWay : ∀ i entry, (s.threads i).counted? = some entry → entry ∈ l
  pushed : ∀ entry ∈ s.asyncLog.pushed, entry ∈ l

/-- A thread moves on with the record that it had, or without one. -/
theorem Counted.keep {l : List (Entry Text)} (h : s.Counted l) {i : Nat} {pc : LogPc Text}
    (own : ∀ entry, pc.counted? = some entry → entry ∈ l)
    (threads : t.threads = Function.update s.threads i pc) (lCount : t.lCount = s.lCount)
    (pushed : ∀ entry ∈ t.asyncLog.pushed, entry ∈ s.asyncLog.pushed ∨ entry ∈ l) :
    t.Counted l := by
  constructor
  · rw [lCount]
    exact h.length
  · intro j entry hj
    rw [threads] at hj
    by_cases hji : j = i
    · rw [hji, Function.update_self] at hj
      exact own entry hj
    · rw [Function.update_of_ne hji] at hj
      exact h.onTheWay j entry hj
  · intro entry hentry
    rcases pushed entry hentry with hold | hnew
    · exact h.pushed entry hold
    · exact hnew

/-- A statement of a push loop pushes at most its record. -/
theorem mem_pushed_of_call {c : Nat} {entry : Entry Text} {asyncLog : AsyncLog (Entry Text)}
    (hstep : AsyncLog.CallStep s.asyncLog asyncLog c entry) {l : List (Entry Text)}
    (hmem : entry ∈ l) : ∀ e ∈ asyncLog.pushed, e ∈ s.asyncLog.pushed ∨ e ∈ l := by
  intro e he
  cases hstep.move with
  | pushed hpushed calls =>
    rw [hpushed, List.mem_append, List.mem_singleton] at he
    rcases he with hold | rfl
    · exact Or.inl hold
    · exact Or.inr hmem
  | again pc loops hpushed calls | gaveUp stop hpushed calls =>
    rw [hpushed] at he
    exact Or.inl he

/-- The writer and the destructor push nothing. -/
theorem Counted.pushesNothing {l : List (Entry Text)} (h : s.Counted l)
    (threads : t.threads = s.threads) (lCount : t.lCount = s.lCount)
    (pushed : t.asyncLog.pushed = s.asyncLog.pushed) : t.Counted l := by
  constructor
  · rw [lCount]
    exact h.length
  · rw [threads]
    exact h.onTheWay
  · rw [pushed]
    exact h.pushed

/-- Every step. -/
theorem Counted.step {l : List (Entry Text)} (h : s.Counted l) (hs : s.Sound)
    (hd : s.OneDay tm splitLines) (hstep : Step s a t) : ∃ l', t.Counted l' := by
  cases hstep with
  | log i text tm' at_ | lockCount i opened entry tm' at_ free =>
    exact ⟨l, h.keep (by simp [LogPc.counted?]) rfl rfl fun e he ↦ Or.inl he⟩
  | count i opened entry tm' u at_ counted =>
    have hkept : u.lCount = s.lCount + 1 ∧ u.asyncLog = s.asyncLog := by
      rcases count_of_day (hd.day at_) counted with ⟨-, rfl⟩ | ⟨-, -, rfl⟩
      · exact ⟨rfl, rfl⟩
      · exact ⟨rfl, rfl⟩
    refine ⟨l ++ [entry], ?_, ?_, ?_⟩
    · show ((l ++ [entry]).length : Int) = u.lCount
      rw [hkept.1, ← h.length, List.length_append]
      rfl
    · intro j e hj
      change (Function.update u.threads i (.lockBuf entry) j).counted? = some e at hj
      rw [threads_count counted i] at hj
      by_cases hji : j = i
      · rw [hji, Function.update_self] at hj
        cases hj
        exact List.mem_append_right _ (List.mem_singleton_self _)
      · rw [Function.update_of_ne hji] at hj
        exact List.mem_append_left _ (h.onTheWay j e hj)
    · intro e he
      change e ∈ u.asyncLog.pushed at he
      rw [hkept.2] at he
      exact List.mem_append_left _ (h.pushed e he)
  | lockBuf i opened entry at_ free | format i opened entry at_ =>
    refine ⟨l, h.keep (i := i) ?_ rfl rfl fun e he ↦ Or.inl he⟩
    intro e he
    exact h.onTheWay i e (by rw [at_]; exact he)
  | copy i opened entry logStr asyncLog at_ buf moved =>
    rw [hs.buffered i entry at_] at buf
    cases buf
    cases AsyncLog.step_inversion moved with
    | log =>
      refine ⟨l, h.keep (i := i) ?_ rfl rfl fun e he ↦ Or.inl he⟩
      intro e he
      exact h.onTheWay i e (by rw [at_]; exact he)
  | again i opened c entry asyncLog at_ moved alive =>
    have hcall := AsyncLog.callStep_inversion (hs.looping.calls i c entry at_) moved
    have hmem : entry ∈ l := h.onTheWay i entry (by rw [at_]; rfl)
    refine ⟨l, h.keep (i := i) ?_ rfl rfl (mem_pushed_of_call hcall hmem)⟩
    intro e he
    cases he
    exact hmem
  | finish i opened c entry pushed asyncLog at_ moved returned =>
    have hcall := AsyncLog.callStep_inversion (hs.looping.calls i c entry at_) moved
    have hmem : entry ∈ l := h.onTheWay i entry (by rw [at_]; rfl)
    refine ⟨l, h.keep (i := i) ?_ rfl rfl (mem_pushed_of_call hcall hmem)⟩
    intro e he
    cases he
  | fputs singleLine asyncLog at_ free moved =>
    have hother := AsyncLog.otherStep_of_step moved (Or.inl rfl)
    exact ⟨l, h.pushesNothing rfl rfl hother.pushed⟩
  | writer asyncLog other moved =>
    have hother := AsyncLog.otherStep_of_step moved (Or.inl rfl)
    exact ⟨l, h.pushesNothing rfl rfl hother.pushed⟩
  | destructor a b asyncLog which moved =>
    have hother := AsyncLog.otherStep_of_step moved (Or.inr which)
    exact ⟨l, h.pushesNothing rfl rfl hother.pushed⟩

/-- What was written, and what the writer is about to write, has been counted. -/
theorem Counted.written_le {l : List (Entry Text)} (h : s.Counted l) (hs : s.Sound)
    {queued : List (Entry Text)} (ho : s.asyncLog.Ordered queued) :
    (s.asyncLog.lFp.length + s.asyncLog.writer.tested.length : Int) ≤ s.lCount := by
  obtain ⟨dropped, hpushed, -⟩ := ho.inOrder
  have hle : s.asyncLog.pushed.length ≤ l.length :=
    (hs.pushed_nodup.subperm h.pushed).length_le
  have hlength := congrArg List.length hpushed
  have hcount := h.length
  simp only [WriterPc.inHand, List.length_append] at hlength
  omega

/-! ### The limit -/

/-- The records of some files. -/
def recordsOf (files : List (LogFile Text)) : List (Entry Text) := files.flatMap LogFile.records

/-- No file has more records than allowed, and the newest has room for those that are counted
and not yet written: before the flag is set because those before it were written at the last
rotation, and after that because one record at most is still written. -/
structure Limited (s : LogSystem Text) (splitLines : Int) : Prop where
  limit : ∀ file ∈ s.files, (file.records.length : Int) ≤ splitLines
  running : s.isNull = false → s.asyncLog.isThreadStop = false → ∀ newest older,
    s.files = newest :: older →
    s.lCount / splitLines * splitLines ≤ (recordsOf older).length + 1
  stopping : s.isNull = false → s.asyncLog.isThreadStop = true → ∀ newest older,
    s.files = newest :: older →
    (newest.records.length + s.asyncLog.writer.tested.length : Int) ≤ splitLines

/-- What was written is what the files hold. -/
theorem Filed.length_eq (h : s.Filed) : (recordsOf s.files).length = s.asyncLog.lFp.length := by
  rw [← h.records, recordsOf]
  simp only [List.length_flatMap, List.map_reverse, List.sum_reverse]

/-- While the flag is not set, the newest file has room for the record that the writer is about
to write. -/
theorem Limited.room (h : s.Limited splitLines) (hf : s.Filed) (hsplit : 1 ≤ splitLines)
    (hle : (s.asyncLog.lFp.length + s.asyncLog.writer.tested.length : Int) ≤ s.lCount)
    (opened : s.isNull = false) (run : s.asyncLog.isThreadStop = false) {newest : LogFile Text}
    {older : List (LogFile Text)} (hfiles : s.files = newest :: older) :
    (newest.records.length + s.asyncLog.writer.tested.length : Int) ≤ splitLines := by
  have hbase := h.running opened run newest older hfiles
  have hlength := hf.length_eq
  have hdiv := Int.ediv_mul_add_emod s.lCount splitLines
  have hmod := Int.emod_lt_of_pos s.lCount (show 0 < splitLines by omega)
  rw [hfiles, recordsOf, List.flatMap_cons, List.length_append, ← recordsOf] at hlength
  omega

/-- The files and the writer stay. -/
theorem Limited.keep (h : s.Limited splitLines) (files : t.files = s.files)
    (isNull : t.isNull = s.isNull) (lCount : t.lCount = s.lCount)
    (stop : t.asyncLog.isThreadStop = s.asyncLog.isThreadStop)
    (tested : s.asyncLog.isThreadStop = true →
      t.asyncLog.writer.tested.length ≤ s.asyncLog.writer.tested.length) :
    t.Limited splitLines := by
  constructor
  · rw [files]
    exact h.limit
  · rw [files, isNull, lCount, stop]
    exact h.running
  · rw [files, isNull, stop]
    intro hnull hstop newest older hfiles
    have hroom := h.stopping hnull hstop newest older hfiles
    have hle := tested hstop
    omega

/-- A step of the queue's threads that does not stop them. -/
theorem Limited.keepAsync (h : s.Limited splitLines) (files : t.files = s.files)
    (isNull : t.isNull = s.isNull) (lCount : t.lCount = s.lCount)
    {b : LogAction (Entry Text)} (moved : s.asyncLog.step b = some t.asyncLog)
    (other : b ≠ .destructor) : t.Limited splitLines := by
  have hasync := AsyncLog.step_inversion moved
  exact h.keep files isNull lCount (hasync.isThreadStop_eq other) hasync.tested_le

/-- The writer holds one record at most. -/
theorem length_tested_le (pc : WriterPc (Entry Text)) : pc.tested.length ≤ 1 := by
  cases pc with
  | pop | empty | waiting | test | done => exact Nat.zero_le 1
  | fputs singleLine => exact Nat.le_refl 1

/-- A rotation. -/
theorem Limited.rotate (h : s.Limited splitLines) (hf : s.Filed) (hsplit : 1 ≤ splitLines)
    (hfull : (s.lCount + 1) % splitLines = 0) (name : FileName) (opened : Bool)
    (hok : s.asyncLog.isThreadStop = true ∨ (s.asyncLog.lFp.length : Int) = s.lCount) :
    Limited { s with
      lCount := s.lCount + 1
      files := if opened then ⟨name, []⟩ :: s.files else s.files
      isNull := !opened } splitLines := by
  cases opened with
  | false =>
    constructor
    · exact h.limit
    · intro hnull
      cases hnull
    · intro hnull
      cases hnull
  | true =>
    constructor
    · intro file hfile
      rcases List.mem_cons.mp hfile with rfl | hold
      · show (0 : Int) ≤ splitLines
        omega
      · exact h.limit file hold
    · intro _ hrun newest older hfiles
      cases hfiles
      show (s.lCount + 1) / splitLines * splitLines ≤ (recordsOf s.files).length + 1
      have hdiv := Int.ediv_mul_add_emod (s.lCount + 1) splitLines
      rcases hok with hstop | hwritten
      · exact absurd hstop (by rw [hrun]; decide)
      · rw [hf.length_eq, hwritten]
        omega
    · intro _ _ newest older hfiles
      cases hfiles
      have hle := length_tested_le s.asyncLog.writer
      show (0 + s.asyncLog.writer.tested.length : Int) ≤ splitLines
      omega

/-- A count, with a rotation or without one. -/
theorem Limited.count (h : s.Limited splitLines) (hf : s.Filed) (hsplit : 1 ≤ splitLines)
    (hlines : s.lSplitLines = splitLines) (hnonneg : 0 ≤ s.lCount) {opened : Bool}
    {u : LogSystem Text} (day : s.lToday = tm.day) (counted : s.count tm opened = some u)
    (hok : (s.lCount + 1).tmod s.lSplitLines = 0 →
      s.asyncLog.isThreadStop = true ∨ (s.asyncLog.lFp.length : Int) = s.lCount) :
    u.Limited splitLines := by
  have hmod : (s.lCount + 1).tmod s.lSplitLines = (s.lCount + 1) % splitLines := by
    rw [hlines]
    exact Int.tmod_eq_emod_of_nonneg (by omega)
  rcases count_of_day day counted with ⟨hwithin, rfl⟩ | ⟨hfull, -, rfl⟩
  · rw [hmod] at hwithin
    constructor
    · exact h.limit
    · intro hnull hrun newest older hfiles
      have hbase := h.running hnull hrun newest older hfiles
      have hnext := emod_succ hsplit hwithin
      have hdiv := Int.ediv_mul_add_emod s.lCount splitLines
      have hdiv' := Int.ediv_mul_add_emod (s.lCount + 1) splitLines
      show (s.lCount + 1) / splitLines * splitLines ≤ (recordsOf older).length + 1
      omega
    · exact h.stopping
  · exact h.rotate hf hsplit (hmod ▸ hfull) _ opened (hok hfull)

/-- A record is written to the newest file, which has room for it. -/
theorem Limited.fputs (h : s.Limited splitLines) (hf : s.Filed) (hsplit : 1 ≤ splitLines)
    (hle : (s.asyncLog.lFp.length + s.asyncLog.writer.tested.length : Int) ≤ s.lCount)
    (hnull : s.isNull = false) {singleLine : Entry Text}
    {asyncLog : AsyncLog (Entry Text)} (at_ : s.asyncLog.writer = .fputs singleLine)
    (moved : s.asyncLog.step .writer = some asyncLog) :
    Limited { s with asyncLog := asyncLog, files := LogSystem.fputs singleLine s.files }
      splitLines := by
  obtain ⟨newest, older, hfiles⟩ := List.exists_cons_of_ne_nil hf.some_
  have htested : s.asyncLog.writer.tested.length = 1 := by
    rw [at_]
    rfl
  have hroom : (newest.records.length + 1 : Int) ≤ splitLines := by
    by_cases hstop : s.asyncLog.isThreadStop = true
    · have hstopping := h.stopping hnull hstop newest older hfiles
      omega
    · have hrunning := h.room hf hsplit hle hnull (Bool.eq_false_of_not_eq_true hstop) hfiles
      omega
  cases AsyncLog.step_inversion moved with
  | fputs singleLine' at_' =>
    constructor
    · intro file hfile
      change file ∈ LogSystem.fputs singleLine s.files at hfile
      rw [hfiles] at hfile
      rcases List.mem_cons.mp hfile with rfl | hold
      · show ((newest.records ++ [singleLine]).length : Int) ≤ splitLines
        rw [List.length_append]
        exact hroom
      · exact h.limit file (by rw [hfiles]; exact List.mem_cons_of_mem newest hold)
    · intro _ hrun newest' older' hfiles'
      change LogSystem.fputs singleLine s.files = newest' :: older' at hfiles'
      rw [hfiles] at hfiles'
      cases hfiles'
      exact h.running hnull hrun newest older hfiles
    · intro _ _ newest' older' hfiles'
      change LogSystem.fputs singleLine s.files = newest' :: older' at hfiles'
      rw [hfiles] at hfiles'
      cases hfiles'
      show ((newest.records ++ [singleLine]).length + 0 : Int) ≤ splitLines
      rw [List.length_append]
      show ((newest.records.length + 1 : Nat) + 0 : Int) ≤ splitLines
      omega
  | empty at_' | block at_' | fail notified at_' | drop singleLine' at_' | pass singleLine' at_' =>
    rw [at_] at at_'
    cases at_'
  | take at_' some_ =>
    rw [at_] at at_'
    cases at_'

/-- Every step. -/
theorem Limited.step (h : s.Limited splitLines) (hd : s.OneDay tm splitLines) (hf : s.Filed)
    (hsplit : 1 ≤ splitLines) (hnonneg : 0 ≤ s.lCount)
    (hle : (s.asyncLog.lFp.length + s.asyncLog.writer.tested.length : Int) ≤ s.lCount)
    (hok : s.RotatesWritten a) (hmove : s.step a = some t) (hstep : Step s a t) :
    t.Limited splitLines := by
  cases hstep with
  | log | lockCount | lockBuf | format => exact h.keep rfl rfl rfl rfl fun _ ↦ Nat.le_refl _
  | count i opened entry tm' u at_ counted =>
    have hcounts : (s.threads i).counts = true := by
      rw [at_]
      rfl
    have hu := h.count hf hsplit hd.split hnonneg (hd.day at_) counted (hok hcounts)
    exact hu.keep rfl rfl rfl rfl fun _ ↦ Nat.le_refl _
  | copy i opened entry logStr asyncLog at_ buf moved =>
    exact h.keepAsync rfl rfl rfl moved (by simp)
  | again i opened c entry asyncLog at_ moved alive =>
    exact h.keepAsync rfl rfl rfl moved (by simp)
  | finish i opened c entry pushed asyncLog at_ moved returned =>
    exact h.keepAsync rfl rfl rfl moved (by simp)
  | fputs singleLine asyncLog at_ free moved =>
    exact h.fputs hf hsplit hle (isNull_of_fputs at_ hmove) at_ moved
  | writer asyncLog other moved =>
    exact h.keepAsync rfl rfl rfl moved (by simp)
  | destructor a b asyncLog which moved =>
    have hasync := AsyncLog.step_inversion moved
    by_cases hstop : asyncLog.isThreadStop = s.asyncLog.isThreadStop
    · exact h.keep rfl rfl rfl hstop hasync.tested_le
    · -- The flag is set; what is in hand still goes to the newest file.
      cases hasync with
      | stop at_ =>
        have hrun : s.asyncLog.isThreadStop = false := by
          apply Bool.eq_false_of_not_eq_true
          intro hset
          exact hstop hset.symm
        constructor
        · exact h.limit
        · intro _ hset
          cases hset
        · intro hnull _ newest older hfiles
          exact h.room hf hsplit hle hnull hrun hfiles
      | log | pushed | refused | retry | empty | block | take | fail | drop | pass | fputs
      | destroy | notify | join => exact absurd rfl hstop

/-! ### Names -/

/-- The files have different names, and the number of a part times `l_split_lines` is a count that
has been reached. -/
structure Named (s : LogSystem Text) (splitLines : Int) : Prop where
  nodup : (s.files.map LogFile.name).Nodup
  numbers : ∀ tm number, .part tm number ∈ s.files.map LogFile.name →
    number * splitLines ≤ s.lCount

/-- The names stay, and the count does not decrease. -/
theorem Named.keep (h : s.Named splitLines) (names : t.files.map LogFile.name =
    s.files.map LogFile.name) (lCount : s.lCount ≤ t.lCount) : t.Named splitLines := by
  constructor
  · rw [names]
    exact h.nodup
  · rw [names]
    intro tm number hmem
    exact (h.numbers tm number hmem).trans lCount

/-- `fputs` changes no name. -/
theorem names_fputs (singleLine : Entry Text) (files : List (LogFile Text)) :
    (LogSystem.fputs singleLine files).map LogFile.name = files.map LogFile.name := by
  cases files with
  | nil | cons => rfl

/-- Every step. -/
theorem Named.step (h : s.Named splitLines) (hd : s.OneDay tm splitLines) (hstep : Step s a t) :
    t.Named splitLines := by
  cases hstep with
  | count i opened entry tm' u at_ counted =>
    rcases count_of_day (hd.day at_) counted with ⟨-, rfl⟩ | ⟨hfull, -, rfl⟩
    · exact h.keep rfl (Int.le_add_one (Int.le_refl _))
    · cases opened with
      | false => exact h.keep rfl (Int.le_add_one (Int.le_refl _))
      | true =>
        have hnumber : (s.lCount + 1).tdiv s.lSplitLines * splitLines = s.lCount + 1 := by
          rw [← hd.split]
          exact Int.tdiv_mul_cancel_of_tmod_eq_zero hfull
        constructor
        · show (FileName.part tm' ((s.lCount + 1).tdiv s.lSplitLines) ::
            s.files.map LogFile.name).Nodup
          rw [List.nodup_cons]
          refine ⟨?_, h.nodup⟩
          intro hmem
          have hle := h.numbers _ _ hmem
          omega
        · intro tm'' number hmem
          show number * splitLines ≤ s.lCount + 1
          rcases List.mem_cons.mp hmem with heq | hold
          · cases heq
            exact Int.le_of_eq hnumber
          · exact (h.numbers tm'' number hold).trans (Int.le_add_one (Int.le_refl _))
  | fputs singleLine asyncLog at_ free moved =>
    exact h.keep (names_fputs singleLine s.files) (Int.le_refl _)
  | log | lockCount | lockBuf | format | copy | again | finish | writer | destructor =>
    exact h.keep rfl (Int.le_refl _)

/-- All of it, in every state that is reached on one day under the condition. -/
structure WithinLimit (s : LogSystem Text) (tm : MyTime) (splitLines : Int) : Prop where
  oneDay : s.OneDay tm splitLines
  counted : ∃ l, s.Counted l
  limited : s.Limited splitLines
  named : s.Named splitLines

/-- Before the first step. -/
theorem withinLimit_init (cells : Int → Entry Text) (bufferQueueSize : Int) (tm : MyTime)
    (hsplit : 1 ≤ splitLines) :
    (init cells bufferQueueSize splitLines (.daily tm) tm.day).WithinLimit tm splitLines := by
  constructor
  · refine ⟨rfl, ?_, rfl⟩
    intro i tm' hi
    cases hi
  · refine ⟨[], rfl, ?_, ?_⟩
    · intro i entry hi
      cases hi
    · exact List.forall_mem_nil _
  · constructor
    · intro file hfile
      rw [List.mem_singleton.mp hfile]
      show (0 : Int) ≤ splitLines
      omega
    · intro _ _ newest older hfiles
      cases hfiles
      show (0 : Int) / splitLines * splitLines ≤ 0 + 1
      rw [Int.zero_ediv]
      omega
    · intro _ hstop
      cases hstop
  · constructor
    · exact List.nodup_singleton _
    · intro tm' number hmem
      cases List.mem_singleton.mp hmem

end LogSystem

/-- On a single day, as long as every rotation finds the records that were counted before it
written, or `is_thread_stop` set, all log files have different names and none of them has more
than `l_split_lines` records. -/
theorem no_file_exceeds_split_lines {cells : Int → Entry Text}
    {bufferQueueSize splitLines : Int} {tm : MyTime} {s : LogSystem Text}
    (hsize : 1 ≤ bufferQueueSize) (hsplit : 1 ≤ splitLines)
    (h : ReachBy LogSystem.step (fun s a ↦ LogSystem.OnDay tm a ∧ s.RotatesWritten a)
      (.init cells bufferQueueSize splitLines (.daily tm) tm.day) s) :
    (s.files.map LogFile.name).Nodup ∧
      ∀ file ∈ s.files, (file.records.length : Int) ≤ splitLines := by
  have hinv : Reach LogSystem.step (.init cells bufferQueueSize splitLines (.daily tm) tm.day) s ∧
      s.WithinLimit tm splitLines := by
    apply h.invariant (P := fun s ↦ Reach LogSystem.step
      (.init cells bufferQueueSize splitLines (.daily tm) tm.day) s ∧ s.WithinLimit tm splitLines)
    · exact ⟨.refl, LogSystem.withinLimit_init cells bufferQueueSize tm hsplit⟩
    · intro s a t hs hok hstep
      obtain ⟨hreach, hlimit⟩ := hs
      obtain ⟨l, hcounted⟩ := hlimit.counted
      have hsound := LogSystem.sound_of_reach hreach
      obtain ⟨queued, hordered⟩ :=
        AsyncLog.ordered_of_reach hsize (LogSystem.refines_asyncLog hreach)
      have hle := hcounted.written_le hsound hordered
      have hnonneg : 0 ≤ s.lCount := by omega
      have hmove := LogSystem.step_inversion hstep
      refine ⟨hreach.tail a trivial hstep, ?_⟩
      constructor
      · exact hlimit.oneDay.step hok.1 hmove
      · exact hcounted.step hsound hlimit.oneDay hmove
      · exact hlimit.limited.step hlimit.oneDay hsound.filed hsplit hnonneg hle hok.2 hstep hmove
      · exact hlimit.named.step hlimit.oneDay hmove
  exact ⟨hinv.2.named.nodup, hinv.2.limited.limit⟩

/-- A call of thread 0, up to the end of its push loop. -/
def logOnce (text : Nat) : List (LogSystemAction Nat) :=
  .log 0 text ⟨2024, 1, 1⟩ :: .replicate 6 (.thread 0 true)

/-- Two calls, each written before the next is made; the second rotates. -/
theorem rotation_after_write_within_limit :
    ∃ s, run LogSystem.step (.init (fun _ ↦ ⟨0, 0, 0⟩) 1 2 (.daily ⟨2024, 1, 1⟩) 1)
        (logOnce 7 ++ .replicate 3 .writer ++ logOnce 8 ++ .replicate 3 .writer) = some s ∧
      (s.files.map LogFile.name).Nodup ∧
      ∀ file ∈ s.files, (file.records.length : Int) ≤ 2 := by
  have hrun : (run LogSystem.step (.init (fun _ ↦ ⟨0, 0, 0⟩) 1 2 (.daily ⟨2024, 1, 1⟩) 1)
      (logOnce 7 ++ .replicate 3 .writer ++ logOnce 8 ++ .replicate 3 .writer)).isSome := by
    decide +kernel
  have hok : Admits LogSystem.step
      (fun s a ↦ LogSystem.OnDay ⟨2024, 1, 1⟩ a ∧ s.RotatesWritten a)
      (.init (fun _ ↦ ⟨0, 0, 0⟩) 1 2 (.daily ⟨2024, 1, 1⟩) 1)
      (logOnce 7 ++ .replicate 3 .writer ++ logOnce 8 ++ .replicate 3 .writer) := by
    decide +kernel
  obtain ⟨s, hs⟩ := Option.isSome_iff_exists.mp hrun
  exact ⟨s, hs, no_file_exceeds_split_lines (by decide) (by decide) (reachBy_of_run hs hok)⟩

/-- The second of three calls rotates before the first record is written. -/
def rotationBeforeWrite : List (LogSystemAction Nat) :=
  logOnce 7 ++ (logOnce 8).take 3 ++ .replicate 3 .writer ++ (logOnce 8).drop 3 ++
    .replicate 3 .writer ++ logOnce 9 ++ .replicate 3 .writer

/-- All three records go to the part that the second call opens, which may have two. -/
theorem part_gets_three_of_two :
    ¬ ∀ (cells : Int → Entry Nat) (bufferQueueSize splitLines : Int) (tm : MyTime)
      (s : LogSystem Nat), 1 ≤ bufferQueueSize → 1 ≤ splitLines →
      ReachBy LogSystem.step (fun _ a ↦ LogSystem.OnDay tm a)
        (.init cells bufferQueueSize splitLines (.daily tm) tm.day) s →
      ∀ file ∈ s.files, (file.records.length : Int) ≤ splitLines := by
  intro hclaim
  have hrun : (run LogSystem.step (.init (fun _ ↦ ⟨0, 0, 0⟩) 1 2 (.daily ⟨2024, 1, 1⟩) 1)
      rotationBeforeWrite).isSome := by
    decide +kernel
  have hok : Admits LogSystem.step (fun _ a ↦ LogSystem.OnDay ⟨2024, 1, 1⟩ a)
      (.init (fun _ ↦ ⟨0, 0, 0⟩) 1 2 (.daily ⟨2024, 1, 1⟩) 1) rotationBeforeWrite := by
    decide +kernel
  have hthree : ∀ t ∈ run LogSystem.step
      (.init (fun _ ↦ ⟨0, 0, 0⟩) 1 2 (.daily ⟨2024, 1, 1⟩) 1) rotationBeforeWrite,
      ∃ file ∈ t.files, file.records.length = 3 := by
    decide +kernel
  obtain ⟨s, hs⟩ := Option.isSome_iff_exists.mp hrun
  obtain ⟨file, hfile, hlength⟩ := hthree s hs
  have hle := hclaim (fun _ ↦ ⟨0, 0, 0⟩) 1 2 ⟨2024, 1, 1⟩ s (by decide) (by decide)
    (reachBy_of_run hs hok) file hfile
  rw [hlength] at hle
  exact absurd hle (by decide)

end ConcurrentServer.Log
