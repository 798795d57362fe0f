import ConcurrentServer.Base.Threads
import ConcurrentServer.Log.Logging
import Mathlib.Data.List.Nodup

/-!
# The order of the logged records

`src/log/log.cpp:153–217`, `src/log/log.h:63–78`. A record is formatted and copied under `l_mutex`,
so each thread pushes its own record, and waits until it is pushed before it logs the next. With
the order of the queue, what the writer has written are the first of the pushed records, and of
each thread records that it logged, in its order.
-/

namespace ConcurrentServer.Log
open ConcurrentServer.Base

variable {Text : Type}

/-- The record of a push loop that has not ended. -/
def WriteLogPc.looping? {T : Type} : WriteLogPc T → Option T
  | .push logStr | .test logStr => some logStr
  | .idle | .returned _ => none

namespace AsyncLog

variable {T : Type} {s t : AsyncLog T}

/-- What a statement of the push loop of call `c` does. -/
inductive CallMove (s t : AsyncLog T) (c : Nat) (logStr : T) : Prop
  /-- The record is pushed, and the loop ends. -/
  | pushed (pushed : t.pushed = s.pushed ++ [logStr])
    (calls : t.calls = Function.update s.calls c (.returned true))
  /-- The loop goes on. -/
  | again (pc : WriteLogPc T) (loops : pc.looping? = some logStr)
    (pushed : t.pushed = s.pushed) (calls : t.calls = Function.update s.calls c pc)
  /-- The record was refused, and the flag is set. -/
  | gaveUp (stop : s.isThreadStop = true) (pushed : t.pushed = s.pushed)
    (calls : t.calls = Function.update s.calls c (.returned false))

/-- A statement of the push loop of call `c`. -/
structure CallStep (s t : AsyncLog T) (c : Nat) (logStr : T) : Prop where
  move : CallMove s t c logStr
  lFp : t.lFp = s.lFp
  isThreadStop : t.isThreadStop = s.isThreadStop

/-- Every step of the push loop is one of these. -/
theorem callStep_inversion {c : Nat} {logStr : T} (looping : (s.calls c).looping? = some logStr)
    (h : s.step (.call c) = some t) : CallStep s t c logStr := by
  cases step_inversion h with
  | pushed _ logStr' at_ free room =>
    rw [at_] at looping
    cases looping
    exact ⟨.pushed rfl rfl, rfl, rfl⟩
  | refused _ logStr' at_ free full =>
    rw [at_] at looping
    cases looping
    exact ⟨.again (.test logStr) rfl rfl rfl, rfl, rfl⟩
  | retry _ logStr' at_ =>
    rw [at_] at looping
    cases looping
    by_cases stop : s.isThreadStop = true
    · rw [if_pos stop]
      exact ⟨.gaveUp stop rfl rfl, rfl, rfl⟩
    · rw [if_neg stop]
      exact ⟨.again (.push logStr) rfl rfl rfl, rfl, rfl⟩

/-- What the writer and the destructor leave. -/
structure OtherStep (s t : AsyncLog T) : Prop where
  calls : t.calls = s.calls
  pushed : t.pushed = s.pushed
  isThreadStop : s.isThreadStop = true → t.isThreadStop = true

/-- The writer and the destructor leave the push loops. -/
theorem otherStep_of_step {a : LogAction T} (h : s.step a = some t)
    (other : a = .writer ∨ a = .destroy ∨ a = .destructor) : OtherStep s t := by
  cases step_inversion h with
  | log | pushed | refused | retry => simp at other
  | empty | block | take | fail | drop | pass | fputs | destroy | notify | join =>
    exact ⟨rfl, rfl, id⟩
  | stop => exact ⟨rfl, rfl, fun _ ↦ rfl⟩

/-- The destructor writes nothing. -/
theorem lFp_of_destructor {a : LogAction T} (h : s.step a = some t)
    (other : a = .destroy ∨ a = .destructor) : t.lFp = s.lFp := by
  cases step_inversion h with
  | destroy | stop | notify | join => rfl
  | _ => simp at other

/-- The writer writes at its `fputs` only. -/
theorem lFp_of_writer (h : s.step .writer = some t) :
    t.lFp = s.lFp ∧ (∀ singleLine, s.writer ≠ .fputs singleLine) ∨
      ∃ singleLine, s.writer = .fputs singleLine ∧ t.lFp = s.lFp ++ [singleLine] := by
  cases step_inversion h with
  | fputs singleLine at_ => exact Or.inr ⟨singleLine, at_, rfl⟩
  | empty at_ | block at_ | fail notified at_ | drop singleLine at_ | pass singleLine at_ =>
    exact Or.inl ⟨rfl, by simp [at_]⟩
  | take at_ some_ =>
    refine Or.inl ⟨rfl, fun singleLine hfputs ↦ ?_⟩
    rw [hfputs] at at_
    cases at_

end AsyncLog

namespace LogSystem

variable {s t : LogSystem Text} {a : LogSystemAction Text}

/-! ### The shared buffer -/

/-- Whoever is inside a critical section of `l_mutex` is its holder. -/
def Exclusive (s : LogSystem Text) : Prop := ∀ i, (s.threads i).holds = true → s.lMutex = some i

/-- A thread takes the free mutex. -/
theorem Exclusive.acquire (h : s.Exclusive) (free : s.lMutex = none) {i : Nat} {pc : LogPc Text}
    (threads : t.threads = Function.update s.threads i pc) (mutex : t.lMutex = some i) :
    t.Exclusive := by
  intro j hj
  rw [mutex]
  by_cases hji : j = i
  · rw [hji]
  · rw [threads, Function.update_of_ne hji] at hj
    have hheld := h j hj
    rw [free] at hheld
    cases hheld

/-- A thread releases the mutex. -/
theorem Exclusive.release (h : s.Exclusive) {i : Nat} (held : (s.threads i).holds = true)
    {pc : LogPc Text} (outside : pc.holds = false)
    (threads : t.threads = Function.update s.threads i pc) : t.Exclusive := by
  intro j hj
  rw [threads] at hj
  by_cases hji : j = i
  · rw [hji, Function.update_self, outside] at hj
    cases hj
  · rw [Function.update_of_ne hji] at hj
    have hheld := h j hj
    rw [h i held] at hheld
    exact absurd (Option.some.inj hheld).symm hji

/-- A thread moves on inside or outside the critical sections. -/
theorem Exclusive.keep (h : s.Exclusive) {i : Nat} {pc : LogPc Text}
    (same : pc.holds = (s.threads i).holds)
    (threads : t.threads = Function.update s.threads i pc) (mutex : t.lMutex = s.lMutex) :
    t.Exclusive := by
  intro j hj
  rw [threads, apply_update_of_same LogPc.holds same] at hj
  rw [mutex]
  exact h j hj

/-- Every step. -/
theorem Exclusive.step (h : s.Exclusive) (hstep : Step s a t) : t.Exclusive := by
  cases hstep with
  | log i text tm at_ => exact h.keep (by rw [at_]; rfl) rfl rfl
  | lockCount i opened entry tm at_ free => exact h.acquire free rfl rfl
  | count i opened entry tm u at_ counted =>
    refine h.release ?_ rfl (threads_count counted i (.lockBuf entry))
    rw [at_]
    rfl
  | lockBuf i opened entry at_ free => exact h.acquire free rfl rfl
  | format i opened entry at_ => exact h.keep (by rw [at_]; rfl) rfl rfl
  | copy i opened entry logStr asyncLog at_ buf moved =>
    exact h.release (by rw [at_]; rfl) rfl rfl
  | again i opened c entry asyncLog at_ moved alive => exact h.keep (by rw [at_]) rfl rfl
  | finish i opened c entry pushed asyncLog at_ moved returned =>
    exact h.keep (by rw [at_]; rfl) rfl rfl
  | fputs | writer | destructor => exact h

/-- A thread that has formatted its record finds it in the buffer. -/
def Buffered (s : LogSystem Text) : Prop :=
  ∀ i entry, s.threads i = .copy entry → s.lBuf = some entry

/-- A thread moves on that leaves the buffer. -/
theorem Buffered.keep (h : s.Buffered) {i : Nat} {pc : LogPc Text}
    (other : ∀ entry, pc ≠ .copy entry) (threads : t.threads = Function.update s.threads i pc)
    (buf : t.lBuf = s.lBuf) : t.Buffered := by
  intro j entry hj
  rw [threads] at hj
  by_cases hji : j = i
  · rw [hji, Function.update_self] at hj
    exact absurd hj (other entry)
  · rw [Function.update_of_ne hji] at hj
    rw [buf]
    exact h j entry hj

/-- Every step: only the holder of `l_mutex` formats. -/
theorem Buffered.step (h : s.Buffered) (hx : s.Exclusive) (hstep : Step s a t) : t.Buffered := by
  cases hstep with
  | log | lockCount | lockBuf | copy | again | finish => exact h.keep (by simp) rfl rfl
  | count i opened entry tm u at_ counted =>
    obtain ⟨file, -, hu⟩ := count_eq_some counted
    have hbuf : u.lBuf = s.lBuf := by rw [hu]
    exact h.keep (by simp) (threads_count counted i (.lockBuf entry)) hbuf
  | format i opened entry at_ =>
    intro j entry' hj
    change Function.update s.threads i (.copy entry) j = .copy entry' at hj
    show some entry = some entry'
    by_cases hji : j = i
    · rw [hji, Function.update_self] at hj
      cases hj
      rfl
    · rw [Function.update_of_ne hji] at hj
      have hheld := hx j (by rw [hj]; rfl)
      rw [hx i (by rw [at_]; rfl)] at hheld
      exact absurd (Option.some.inj hheld).symm hji
  | fputs | writer | destructor => exact h

/-! ### Push loops -/

/-- The record of a thread's call is its own. -/
def Own (s : LogSystem Text) : Prop :=
  ∀ i entry, (s.threads i).record? = some entry → entry.thread = i

/-- A thread moves on with a record of its own. -/
theorem Own.keep (h : s.Own) {i : Nat} {pc : LogPc Text}
    (own : ∀ entry, pc.record? = some entry → entry.thread = i)
    (threads : t.threads = Function.update s.threads i pc) : t.Own := by
  intro j entry hj
  rw [threads] at hj
  by_cases hji : j = i
  · rw [hji, Function.update_self] at hj
    rw [hji]
    exact own entry hj
  · rw [Function.update_of_ne hji] at hj
    exact h j entry hj

/-- A thread moves on with the record that it had. -/
theorem Own.same (h : s.Own) {i : Nat} {pc : LogPc Text}
    (same : pc.record? = (s.threads i).record?)
    (threads : t.threads = Function.update s.threads i pc) : t.Own := by
  intro j entry hj
  rw [threads, apply_update_of_same LogPc.record? same] at hj
  exact h j entry hj

/-- Every step. -/
theorem Own.step (h : s.Own) (hb : s.Buffered) (hstep : Step s a t) : t.Own := by
  cases hstep with
  | log i text tm at_ =>
    refine h.keep (i := i) ?_ rfl
    intro entry hentry
    cases hentry
    rfl
  | lockCount i opened entry tm at_ free | lockBuf i opened entry at_ free
  | format i opened entry at_ => exact h.same (by rw [at_]; rfl) rfl
  | again i opened c entry asyncLog at_ moved alive => exact h.same (by rw [at_]) rfl
  | count i opened entry tm u at_ counted =>
    refine h.same ?_ (threads_count counted i (.lockBuf entry))
    rw [at_]
    rfl
  | copy i opened entry logStr asyncLog at_ buf moved =>
    rw [hb i entry at_] at buf
    cases buf
    exact h.same (by rw [at_]; rfl) rfl
  | finish i opened c entry pushed asyncLog at_ moved returned =>
    refine h.keep (i := i) ?_ rfl
    intro entry' hentry
    cases hentry
  | fputs | writer | destructor => exact h

/-- A thread in its push loop is the call that it entered the loop as, and only those calls have
begun. -/
structure Looping (s : LogSystem Text) : Prop where
  calls : ∀ i c entry, s.threads i = .loop c entry →
    (s.asyncLog.calls c).looping? = some entry
  fresh : ∀ c, s.loops ≤ c → s.asyncLog.calls c = .idle

/-- A thread moves on outside the push loop. -/
theorem Looping.keep (h : s.Looping) {i : Nat} {pc : LogPc Text}
    (other : ∀ c entry, pc ≠ .loop c entry)
    (threads : t.threads = Function.update s.threads i pc) (asyncLog : t.asyncLog = s.asyncLog)
    (loops : t.loops = s.loops) : t.Looping := by
  constructor
  · intro j c entry hj
    rw [threads] at hj
    rw [asyncLog]
    by_cases hji : j = i
    · rw [hji, Function.update_self] at hj
      exact absurd hj (other c entry)
    · rw [Function.update_of_ne hji] at hj
      exact h.calls j c entry hj
  · rw [asyncLog, loops]
    exact h.fresh

/-- The calls and the threads stay where they are. -/
theorem Looping.other (h : s.Looping) (calls : t.asyncLog.calls = s.asyncLog.calls)
    (threads : t.threads = s.threads) (loops : t.loops = s.loops) : t.Looping := by
  constructor
  · rw [calls, threads]
    exact h.calls
  · rw [calls, loops]
    exact h.fresh

/-- A loop that has been entered is older than the next one. -/
theorem Looping.lt_loops (h : s.Looping) {c : Nat} {entry : Entry Text}
    (looping : (s.asyncLog.calls c).looping? = some entry) : c < s.loops := by
  by_contra hge
  rw [h.fresh c (Nat.le_of_not_lt hge)] at looping
  cases looping

/-- A thread enters its push loop. -/
theorem Looping.enter (h : s.Looping) {i : Nat} {logStr : Entry Text}
    (threads : t.threads = Function.update s.threads i (.loop s.loops logStr))
    (calls : t.asyncLog.calls = Function.update s.asyncLog.calls s.loops (.push logStr))
    (loops : t.loops = s.loops + 1) : t.Looping := by
  constructor
  · intro j c entry hj
    rw [threads] at hj
    rw [calls]
    by_cases hji : j = i
    · rw [hji, Function.update_self] at hj
      cases hj
      rw [Function.update_self]
      rfl
    · rw [Function.update_of_ne hji] at hj
      have hold := h.calls j c entry hj
      have hne : c ≠ s.loops := by
        have hlt := h.lt_loops hold
        omega
      rw [Function.update_of_ne hne]
      exact hold
  · intro c hc
    rw [loops] at hc
    rw [calls, Function.update_of_ne (by omega)]
    exact h.fresh c (by omega)

/-- A call of the asynchronous logger moves on, and so does the thread that is in it. -/
theorem Looping.move (h : s.Looping) (ho : s.Own) {i c : Nat} {entry : Entry Text}
    {pc : LogPc Text} {pc' : WriteLogPc (Entry Text)} (at_ : s.threads i = .loop c entry)
    (threads : t.threads = Function.update s.threads i pc)
    (calls : t.asyncLog.calls = Function.update s.asyncLog.calls c pc')
    (loops : t.loops = s.loops)
    (after : ∀ c' entry', pc = .loop c' entry' → c' = c ∧ pc'.looping? = some entry') :
    t.Looping := by
  have hself := h.calls i c entry at_
  constructor
  · intro j c' entry' hj
    rw [threads] at hj
    rw [calls]
    by_cases hji : j = i
    · rw [hji, Function.update_self] at hj
      obtain ⟨hc, hlooping⟩ := after c' entry' hj
      rw [hc, Function.update_self]
      exact hlooping
    · rw [Function.update_of_ne hji] at hj
      have hold := h.calls j c' entry' hj
      have hne : c' ≠ c := by
        intro hc
        rw [hc, hself] at hold
        cases hold
        apply hji
        rw [← ho j entry (by rw [hj]; rfl)]
        exact ho i entry (by rw [at_]; rfl)
      rw [Function.update_of_ne hne]
      exact hold
  · intro c' hc'
    rw [loops] at hc'
    have hlt := h.lt_loops hself
    rw [calls, Function.update_of_ne (by omega)]
    exact h.fresh c' hc'

/-- Every step. -/
theorem Looping.step (h : s.Looping) (ho : s.Own) (hstep : Step s a t) : t.Looping := by
  cases hstep with
  | log | lockCount | lockBuf | format => exact h.keep (by simp) rfl rfl rfl
  | count i opened entry tm u at_ counted =>
    obtain ⟨file, -, hu⟩ := count_eq_some counted
    refine h.keep (by simp) (threads_count counted i (.lockBuf entry)) ?_ ?_
    · show u.asyncLog = s.asyncLog
      rw [hu]
    · show u.loops = s.loops
      rw [hu]
  | copy i opened entry logStr asyncLog at_ buf moved =>
    cases AsyncLog.step_inversion moved with
    | log => exact h.enter rfl rfl rfl
  | again i opened c entry asyncLog at_ moved alive =>
    have hmove := (AsyncLog.callStep_inversion (h.calls i c entry at_) moved).move
    cases hmove with
    | again pc loops pushed calls =>
      refine h.move ho at_ rfl calls rfl ?_
      intro c' entry' heq
      cases heq
      exact ⟨rfl, loops⟩
    | pushed pushed calls =>
      refine absurd ?_ (alive true)
      rw [calls, Function.update_self]
    | gaveUp stop pushed calls =>
      refine absurd ?_ (alive false)
      rw [calls, Function.update_self]
  | finish i opened c entry pushed asyncLog at_ moved returned =>
    have hmove := (AsyncLog.callStep_inversion (h.calls i c entry at_) moved).move
    cases hmove with
    | again pc loops pushed calls | pushed pushed calls | gaveUp stop pushed calls =>
      refine h.move ho at_ rfl calls rfl ?_
      intro c' entry' heq
      cases heq
  | fputs singleLine asyncLog at_ free moved =>
    exact h.other (AsyncLog.otherStep_of_step moved (Or.inl rfl)).calls rfl rfl
  | writer asyncLog other moved =>
    exact h.other (AsyncLog.otherStep_of_step moved (Or.inl rfl)).calls rfl rfl
  | destructor a b asyncLog which moved =>
    exact h.other (AsyncLog.otherStep_of_step moved (Or.inr which)).calls rfl rfl

/-! ### What was logged and what was pushed -/

/-- The records of thread `i`. -/
def ofThread (i : Nat) (records : List (Entry Text)) : List (Entry Text) :=
  records.filter fun entry ↦ decide (entry.thread = i)

/-- One more record of the thread. -/
theorem ofThread_append_own {i : Nat} {entry : Entry Text} (own : entry.thread = i)
    (records : List (Entry Text)) :
    ofThread i (records ++ [entry]) = ofThread i records ++ [entry] := by
  unfold ofThread
  rw [List.filter_append, List.filter_cons_of_pos (by simpa using own), List.filter_nil]

/-- One more record of another thread. -/
theorem ofThread_append_other {i : Nat} {entry : Entry Text} (other : entry.thread ≠ i)
    (records : List (Entry Text)) : ofThread i (records ++ [entry]) = ofThread i records := by
  unfold ofThread
  rw [List.filter_append, List.filter_cons_of_neg (by simpa using other), List.filter_nil,
    List.append_nil]

/-- Thread `i` has logged the records `past`, and the one of the call that it is in. Those of
`past` that were pushed were pushed in this order, and all of them were until the flag is set. -/
structure Account (s : LogSystem Text) (i : Nat) (past : List (Entry Text)) : Prop where
  logged : s.logged i = past ++ (s.threads i).record?.toList
  order : (ofThread i s.asyncLog.pushed).Sublist past
  all : s.asyncLog.isThreadStop = false → ofThread i s.asyncLog.pushed = past

/-- The thread stays in the call that it is in, and pushes nothing. -/
theorem Account.keep {i : Nat} {past : List (Entry Text)} (h : s.Account i past)
    (logged : t.logged i = s.logged i) (entry : (t.threads i).record? = (s.threads i).record?)
    (pushed : ofThread i t.asyncLog.pushed = ofThread i s.asyncLog.pushed)
    (stop : s.asyncLog.isThreadStop = true → t.asyncLog.isThreadStop = true) :
    t.Account i past := by
  constructor
  · rw [logged, entry]
    exact h.logged
  · rw [pushed]
    exact h.order
  · intro hrun
    rw [pushed]
    apply h.all
    apply Bool.eq_false_of_not_eq_true
    intro hstop
    rw [stop hstop] at hrun
    cases hrun

/-- A thread moves on in its call. -/
theorem Account.move {i j : Nat} {past : List (Entry Text)} {pc : LogPc Text}
    (h : s.Account j past) (same : pc.record? = (s.threads i).record?)
    (threads : t.threads = Function.update s.threads i pc) (logged : t.logged = s.logged)
    (pushed : t.asyncLog.pushed = s.asyncLog.pushed)
    (stop : t.asyncLog.isThreadStop = s.asyncLog.isThreadStop) : t.Account j past := by
  apply h.keep
  · rw [logged]
  · rw [threads]
    exact apply_update_of_same LogPc.record? same j
  · rw [pushed]
  · rw [stop]
    exact id

/-- A push loop ends. -/
theorem Account.finish {i j c : Nat} {entry : Entry Text} {past : List (Entry Text)}
    {asyncLog : AsyncLog (Entry Text)} {pushed : Bool} (h : s.Account j past)
    (own : entry.thread = i) (at_ : s.threads i = .loop c entry)
    (hstep : AsyncLog.CallStep s.asyncLog asyncLog c entry)
    (returned : asyncLog.calls c = .returned pushed) :
    ∃ past', { s.setThread i .idle with asyncLog := asyncLog }.Account j past' := by
  by_cases hji : j = i
  · have hentry : s.logged i = past ++ [entry] := by
      have hlogged := h.logged
      rw [hji, at_] at hlogged
      exact hlogged
    have hidle : (Function.update s.threads i .idle i).record? = none := by
      rw [Function.update_self]
      rfl
    refine ⟨past ++ [entry], ?_, ?_, ?_⟩
    · rw [hji]
      show s.logged i = past ++ [entry] ++ (Function.update s.threads i .idle i).record?.toList
      rw [hidle, hentry]
      exact (List.append_nil _).symm
    · show (ofThread j asyncLog.pushed).Sublist _
      cases hstep.move with
      | pushed hpushed calls =>
        rw [hpushed, ofThread_append_own (own.trans hji.symm)]
        exact h.order.append_right [entry]
      | gaveUp stop hpushed calls =>
        rw [hpushed]
        exact h.order.trans (List.sublist_append_left past [entry])
      | again pc loops hpushed calls =>
        rw [calls, Function.update_self] at returned
        rw [returned] at loops
        cases loops
    · show asyncLog.isThreadStop = false → ofThread j asyncLog.pushed = past ++ [entry]
      rw [hstep.isThreadStop]
      intro hrun
      cases hstep.move with
      | pushed hpushed calls =>
        rw [hpushed, ofThread_append_own (own.trans hji.symm), h.all hrun]
      | gaveUp stop hpushed calls =>
        rw [hrun] at stop
        cases stop
      | again pc loops hpushed calls =>
        rw [calls, Function.update_self] at returned
        rw [returned] at loops
        cases loops
  · refine ⟨past, h.keep rfl ?_ ?_ ?_⟩
    · show (Function.update s.threads i .idle j).record? = _
      rw [Function.update_of_ne hji]
    · show ofThread j asyncLog.pushed = _
      cases hstep.move with
      | pushed hpushed calls =>
        rw [hpushed, ofThread_append_other]
        rw [own]
        exact Ne.symm hji
      | gaveUp stop hpushed calls => rw [hpushed]
      | again pc loops hpushed calls => rw [hpushed]
    · show _ → asyncLog.isThreadStop = true
      rw [hstep.isThreadStop]
      exact id

/-- Each thread's records are accounted for. -/
def Accounted (s : LogSystem Text) : Prop := ∀ i, ∃ past, s.Account i past

/-- Every step. -/
theorem Accounted.step (h : s.Accounted) (ho : s.Own) (hb : s.Buffered) (hl : s.Looping)
    (hstep : Step s a t) : t.Accounted := by
  intro j
  obtain ⟨past, hj⟩ := h j
  cases hstep with
  | log i text tm at_ =>
    by_cases hji : j = i
    · refine ⟨past, ?_, hj.order, hj.all⟩
      have hlogged := hj.logged
      rw [hji, at_] at hlogged
      rw [hji]
      show Function.update s.logged i (s.logged i ++ [_]) i =
        past ++ (Function.update s.threads i (.lockCount _ tm) i).record?.toList
      rw [Function.update_self, Function.update_self]
      show s.logged i ++ [_] = past ++ [_]
      rw [show s.logged i = past from hlogged.trans (List.append_nil past)]
    · refine ⟨past, hj.keep ?_ ?_ rfl id⟩
      · exact Function.update_of_ne hji _ _
      · show (Function.update s.threads i _ j).record? = _
        rw [Function.update_of_ne hji]
  | lockCount i opened entry tm at_ free | lockBuf i opened entry at_ free
  | format i opened entry at_ => exact ⟨past, hj.move (by rw [at_]; rfl) rfl rfl rfl rfl⟩
  | count i opened entry tm u at_ counted =>
    obtain ⟨file, -, hu⟩ := count_eq_some counted
    refine ⟨past, hj.move ?_ (threads_count counted i (.lockBuf entry)) ?_ ?_ ?_⟩
    · rw [at_]
      rfl
    · show u.logged = s.logged
      rw [hu]
    · show u.asyncLog.pushed = s.asyncLog.pushed
      rw [hu]
    · show u.asyncLog.isThreadStop = s.asyncLog.isThreadStop
      rw [hu]
  | copy i opened entry logStr asyncLog at_ buf moved =>
    rw [hb i entry at_] at buf
    cases buf
    cases AsyncLog.step_inversion moved with
    | log => exact ⟨past, hj.move (by rw [at_]; rfl) rfl rfl rfl rfl⟩
  | again i opened c entry asyncLog at_ moved alive =>
    have hcall := AsyncLog.callStep_inversion (hl.calls i c entry at_) moved
    refine ⟨past, hj.move (by rw [at_]) rfl rfl ?_ hcall.isThreadStop⟩
    cases hcall.move with
    | again pc loops pushed calls => exact pushed
    | gaveUp stop pushed calls => exact pushed
    | pushed pushed calls =>
      refine absurd ?_ (alive true)
      rw [calls, Function.update_self]
  | finish i opened c entry pushed asyncLog at_ moved returned =>
    have hcall := AsyncLog.callStep_inversion (hl.calls i c entry at_) moved
    exact hj.finish (ho i entry (by rw [at_]; rfl)) at_ hcall returned
  | fputs singleLine asyncLog at_ free moved =>
    have hother := AsyncLog.otherStep_of_step moved (Or.inl rfl)
    exact ⟨past, hj.keep rfl rfl (congrArg (ofThread j) hother.pushed) hother.isThreadStop⟩
  | writer asyncLog other moved =>
    have hother := AsyncLog.otherStep_of_step moved (Or.inl rfl)
    exact ⟨past, hj.keep rfl rfl (congrArg (ofThread j) hother.pushed) hother.isThreadStop⟩
  | destructor a b asyncLog which moved =>
    have hother := AsyncLog.otherStep_of_step moved (Or.inr which)
    exact ⟨past, hj.keep rfl rfl (congrArg (ofThread j) hother.pushed) hother.isThreadStop⟩

/-- The records of a thread are numbered by its calls. -/
def Numbered (s : LogSystem Text) : Prop :=
  ∀ i, (s.logged i).map Entry.call = List.range (s.logged i).length

/-- Every step. -/
theorem Numbered.step (h : s.Numbered) (hstep : Step s a t) : t.Numbered := by
  cases hstep with
  | log i text tm at_ =>
    intro j
    show (Function.update s.logged i _ j).map Entry.call =
      List.range (Function.update s.logged i _ j).length
    by_cases hji : j = i
    · rw [hji, Function.update_self, List.map_append, h i, List.length_append]
      exact List.range_succ.symm
    · rw [Function.update_of_ne hji]
      exact h j
  | count i opened entry tm u at_ counted =>
    obtain ⟨file, -, hu⟩ := count_eq_some counted
    show ∀ j, (u.logged j).map Entry.call = List.range (u.logged j).length
    rw [show u.logged = s.logged by rw [hu]]
    exact h
  | lockCount | lockBuf | format | copy | again | finish | fputs | writer | destructor => exact h

/-! ### Files -/

/-- The files hold together what the writer has written. -/
structure Filed (s : LogSystem Text) : Prop where
  some_ : s.files ≠ []
  records : s.files.reverse.flatMap LogFile.records = s.asyncLog.lFp

/-- Nothing is written. -/
theorem Filed.keep (h : s.Filed) (files : t.files = s.files)
    (lFp : t.asyncLog.lFp = s.asyncLog.lFp) : t.Filed := by
  constructor
  · rw [files]
    exact h.some_
  · rw [files, lFp]
    exact h.records

/-- Every step. -/
theorem Filed.step (h : s.Filed) (hl : s.Looping) (hstep : Step s a t) : t.Filed := by
  cases hstep with
  | log | lockCount | lockBuf | format => exact h.keep rfl rfl
  | count i opened entry tm u at_ counted =>
    obtain ⟨file, hempty, hu⟩ := count_eq_some counted
    have hfiles : u.files = file ++ s.files := by rw [hu]
    have hnew : file.reverse.flatMap LogFile.records = [] := by
      apply List.flatMap_eq_nil_iff.mpr
      intro f hf
      exact hempty f (List.mem_reverse.mp hf)
    constructor
    · show u.files ≠ []
      rw [hfiles]
      exact List.append_ne_nil_of_right_ne_nil file h.some_
    · show u.files.reverse.flatMap LogFile.records = u.asyncLog.lFp
      rw [hfiles, List.reverse_append, List.flatMap_append, hnew, List.append_nil, h.records, hu]
  | copy i opened entry logStr asyncLog at_ buf moved =>
    cases AsyncLog.step_inversion moved with
    | log => exact h.keep rfl rfl
  | again i opened c entry asyncLog at_ moved alive =>
    exact h.keep rfl (AsyncLog.callStep_inversion (hl.calls i c entry at_) moved).lFp
  | finish i opened c entry pushed asyncLog at_ moved returned =>
    exact h.keep rfl (AsyncLog.callStep_inversion (hl.calls i c entry at_) moved).lFp
  | fputs singleLine asyncLog at_ free moved =>
    obtain ⟨file, files, hfiles⟩ := List.exists_cons_of_ne_nil h.some_
    have hrecords := h.records
    rw [hfiles] at hrecords
    cases AsyncLog.lFp_of_writer moved with
    | inl hnone => exact absurd at_ (hnone.2 singleLine)
    | inr hsome =>
      obtain ⟨singleLine', hat, hlFp⟩ := hsome
      rw [at_] at hat
      cases hat
      constructor
      · show fputs singleLine s.files ≠ []
        rw [hfiles]
        simp [fputs]
      · show (fputs singleLine s.files).reverse.flatMap LogFile.records = asyncLog.lFp
        rw [hfiles, hlFp, ← hrecords]
        simp [fputs]
  | writer asyncLog other moved =>
    cases AsyncLog.lFp_of_writer moved with
    | inl hnone => exact h.keep rfl hnone.1
    | inr hsome =>
      obtain ⟨singleLine, hat, -⟩ := hsome
      exact absurd hat (other singleLine)
  | destructor a b asyncLog which moved =>
    exact h.keep rfl (AsyncLog.lFp_of_destructor moved which)

/-! ### The order of the written records -/

/-- The written records are the first of the pushed ones, in their order; none is written twice,
and each thread's records are records that it logged, in its order. Until the flag is set none of
them is left out. The files hold them one behind the other. -/
structure InOrder (s : LogSystem Text) : Prop where
  written : s.asyncLog.lFp <+: s.asyncLog.pushed
  once : s.asyncLog.lFp.Nodup
  logged : ∀ i, (ofThread i s.asyncLog.lFp).Sublist (s.logged i)
  complete : s.asyncLog.isThreadStop = false → ∀ i, ofThread i s.asyncLog.lFp <+: s.logged i
  files : s.files.reverse.flatMap LogFile.records = s.asyncLog.lFp

/-- All of it, in every reached state. -/
structure Sound (s : LogSystem Text) : Prop where
  exclusive : s.Exclusive
  buffered : s.Buffered
  own : s.Own
  looping : s.Looping
  accounted : s.Accounted
  numbered : s.Numbered
  filed : s.Filed

/-- Before the first step. -/
theorem sound_init (cells : Int → Entry Text) (bufferQueueSize splitLines : Int) (name : FileName)
    (today : Int) : (init cells bufferQueueSize splitLines name today).Sound := by
  constructor
  · intro i hi
    cases hi
  · intro i entry hi
    cases hi
  · intro i entry hi
    cases hi
  · constructor
    · intro i c entry hi
      cases hi
    · intro c _
      rfl
  · intro i
    exact ⟨[], rfl, List.Sublist.refl [], fun _ ↦ rfl⟩
  · intro i
    rfl
  · constructor
    · simp [init]
    · rfl

/-- In every reached state. -/
theorem sound_of_reach {cells : Int → Entry Text} {bufferQueueSize splitLines : Int}
    {name : FileName} {today : Int}
    (h : Reach step (init cells bufferQueueSize splitLines name today) s) : s.Sound := by
  apply h.invariant (sound_init cells bufferQueueSize splitLines name today)
  intro s a t hs _ hstep
  have hmove := step_inversion hstep
  constructor
  · exact hs.exclusive.step hmove
  · exact hs.buffered.step hs.exclusive hmove
  · exact hs.own.step hs.buffered hmove
  · exact hs.looping.step hs.own hmove
  · exact hs.accounted.step hs.own hs.buffered hs.looping hmove
  · exact hs.numbered.step hmove
  · exact hs.filed.step hs.looping hmove

/-- Records are different if those of each thread are. -/
theorem nodup_of_ofThread {records : List (Entry Text)} (h : ∀ i, (ofThread i records).Nodup) :
    records.Nodup := by
  induction records with
  | nil => exact List.nodup_nil
  | cons entry rest ih =>
    have hsublist : ∀ i, (ofThread i rest).Sublist (ofThread i (entry :: rest)) := by
      intro i
      exact (List.sublist_cons_self entry rest).filter _
    have hown : (ofThread entry.thread (entry :: rest)).Nodup := h entry.thread
    unfold ofThread at hown
    rw [List.filter_cons_of_pos (by simp), List.nodup_cons] at hown
    rw [List.nodup_cons]
    constructor
    · intro hmem
      exact hown.1 (List.mem_filter.mpr ⟨hmem, by simp⟩)
    · exact ih fun i ↦ (hsublist i).nodup (h i)

/-- No record is pushed twice. -/
theorem Sound.pushed_nodup (h : s.Sound) : s.asyncLog.pushed.Nodup := by
  apply nodup_of_ofThread
  intro i
  obtain ⟨past, hi⟩ := h.accounted i
  have hlogged : (s.logged i).Nodup := by
    apply List.Nodup.of_map Entry.call
    rw [h.numbered i]
    exact List.nodup_range
  rw [hi.logged] at hlogged
  exact hi.order.nodup hlogged.of_append_left

end LogSystem

/-- At every moment, whatever the threads that log, the writer and the destructor do, the written
records are in order. -/
theorem records_written_in_order {cells : Int → Entry Text} {bufferQueueSize splitLines : Int}
    {name : FileName} {today : Int} {s : LogSystem Text} (hsize : 1 ≤ bufferQueueSize)
    (h : Reach LogSystem.step (.init cells bufferQueueSize splitLines name today) s) :
    s.InOrder := by
  have hsound := LogSystem.sound_of_reach h
  have hwritten := AsyncLog.written_prefix_of_pushed hsize (LogSystem.refines_asyncLog h)
  have hthread : ∀ i, LogSystem.ofThread i s.asyncLog.lFp <+:
      LogSystem.ofThread i s.asyncLog.pushed := fun i ↦ hwritten.filter _
  constructor
  · exact hwritten
  · exact hwritten.sublist.nodup hsound.pushed_nodup
  · intro i
    obtain ⟨past, hi⟩ := hsound.accounted i
    rw [hi.logged]
    exact ((hthread i).sublist.trans hi.order).trans (List.sublist_append_left past _)
  · intro hrun i
    obtain ⟨past, hi⟩ := hsound.accounted i
    rw [hi.logged]
    have hpast := hthread i
    rw [hi.all hrun] at hpast
    exact hpast.trans (List.prefix_append past _)
  · exact hsound.filed.records

/-- Two threads log on a queue of one cell, which refuses the second record once. -/
def twoThreadsLog : List (LogSystemAction Nat) :=
  .flatten [[.log 0 7 ⟨2024, 1, 1⟩, .log 1 8 ⟨2024, 1, 1⟩], .replicate 5 (.thread 0 true),
    .replicate 5 (.thread 1 true), [.thread 0 true, .thread 1 true, .thread 1 true],
    .replicate 3 .writer, [.thread 1 true]]

/-- The first record is written, and the second one pushed. -/
theorem first_thread_written_first :
    ∃ s, run LogSystem.step (.init (fun _ ↦ ⟨0, 0, 0⟩) 1 5000 (.daily ⟨2024, 1, 1⟩) 1)
        twoThreadsLog = some s ∧ s.InOrder := by
  have hrun : (run LogSystem.step (.init (fun _ ↦ ⟨0, 0, 0⟩) 1 5000 (.daily ⟨2024, 1, 1⟩) 1)
      twoThreadsLog).isSome := by
    decide +kernel
  obtain ⟨s, hs⟩ := Option.isSome_iff_exists.mp hrun
  exact ⟨s, hs, records_written_in_order (by decide) (reach_of_run hs)⟩

end ConcurrentServer.Log
