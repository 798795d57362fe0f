import ConcurrentServer.Log.FileNames

/-!
# Calls around midnight

`src/log/log.cpp:30–37, 153–183`. Any number of threads call `write_log`. A call reads the clock
before it takes `l_mutex` for the count, so calls can enter that critical section in another order
than that of their dates; the other critical sections run at any time. The clock does not go
backwards. As long as no rotation overtakes a call that has read an earlier date, rotations go
forward. A call that was overtaken rotates back, because the test asks whether the days of the month
differ, not which is the later.
-/

namespace ConcurrentServer.Log
open ConcurrentServer.Base

variable {Record : Type}

/-- Where a call of `write_log` is, as far as its count goes. -/
inductive CountPc
  | idle
  /-- It has read the clock. -/
  | read (tm : MyTime)
  | counted
  deriving DecidableEq, Repr

/-- The files, the last reading of the clock, and the calls. -/
structure ClockedCalls (Record : Type) where
  files : LogFiles Record
  now : MyTime
  calls : Nat → CountPc

/-- What can happen next. -/
inductive ClockedAction (Record : Type)
  /-- Call `c` is made, and the clock reads `tm`. -/
  | call (c : Nat) (tm : MyTime)
  /-- Call `c` counts, and rotates if it has to; `opened` says whether `fopen` succeeds. -/
  | count (c : Nat) (opened : Bool)
  /-- A record is written, by a call or by the writer. -/
  | fputs (record : Record)
  | flush
  deriving DecidableEq, Repr

/-- The date that a call has read and not yet used. -/
def CountPc.date : CountPc → Option MyTime
  | .read tm => some tm
  | .idle | .counted => none

namespace LogFiles

/-- The dates in the names of the files that rotations have opened, in that order; the first
stream was there before. -/
def rotated (s : LogFiles Record) : List MyTime := (s.names.drop 1).filterMap FileName.date

/-- The date of the file that a section opens. -/
def opens (s : LogFiles Record) : LogSection Record → List MyTime
  | .count tm true => if s.Rotates tm then [tm] else []
  | .count _ false | .fputs _ | .flush => []

variable {s t : LogFiles Record} {a : LogSection Record}

/-- A rotation that opens its file adds its date. -/
theorem Current.rotated_fopen {i : Nat} {stream : LogStream Record} (h : s.Current i stream)
    (streams : t.streams = s.closed i stream) (name : FileName) :
    (t.fopen name true).rotated = s.rotated ++ name.date.toList := by
  have hlength : 1 ≤ s.names.length := by
    rw [names, List.length_map]
    exact Nat.lt_of_le_of_lt (Nat.zero_le i) (List.getElem?_eq_some_iff.mp h.at_).1
  rw [rotated, names_fopen, h.names_eq streams rfl, List.drop_append_of_le_length hlength,
    List.filterMap_append, rotated]
  cases name with
  | stdout | daily | part => rfl

/-- A rotation whose file does not open adds nothing. -/
theorem Current.rotated_fopen_false {i : Nat} {stream : LogStream Record}
    (h : s.Current i stream) (streams : t.streams = s.closed i stream) (name : FileName) :
    (t.fopen name false).rotated = s.rotated := by
  show (t.names.drop 1).filterMap FileName.date = _
  rw [h.names_eq streams rfl, rotated]

/-- What a section adds to the dates. -/
theorem Step.rotated_eq (hstep : Step s a t) : t.rotated = s.rotated ++ s.opens a := by
  cases hstep with
  | stay tm opened stays =>
    have hopens : s.opens (.count tm opened) = [] := by
      cases opened with
      | false => rfl
      | true => exact if_neg stays.not_rotates
    rw [hopens, List.append_nil]
    rfl
  | newDay tm opened i stream current day =>
    cases opened with
    | false =>
      rw [current.rotated_fopen_false rfl]
      exact (List.append_nil _).symm
    | true =>
      have hopens : s.opens (.count tm true) = [tm] := if_pos (Or.inl day)
      rw [current.rotated_fopen rfl, hopens]
      rfl
  | newPart tm opened i stream current day split full =>
    cases opened with
    | false =>
      rw [current.rotated_fopen_false rfl]
      exact (List.append_nil _).symm
    | true =>
      have hopens : s.opens (.count tm true) = [tm] := if_pos (Or.inr ⟨split, full⟩)
      rw [current.rotated_fopen rfl, hopens]
      rfl
  | fputs record i stream current =>
    rw [opens, List.append_nil, rotated, rotated]
    congr 2
    exact current.names_eq rfl rfl
  | flush i stream current => exact (List.append_nil _).symm

end LogFiles

namespace ClockedCalls

/-- After `init`, which read the clock. -/
def init (files : LogFiles Record) (tm : MyTime) : ClockedCalls Record :=
  ⟨files, tm, fun _ ↦ .idle⟩

/-- The critical section that an action runs, if any. -/
def critical (s : ClockedCalls Record) : ClockedAction Record → Option (LogSection Record)
  | .call _ _ => none
  | .count c opened => (s.calls c).date.map fun tm ↦ .count tm opened
  | .fputs record => some (.fputs record)
  | .flush => some .flush

/-- The step function. -/
def step (s : ClockedCalls Record) (a : ClockedAction Record) : Option (ClockedCalls Record) :=
  match a with
  | .call c tm =>
    if s.calls c = .idle ∧ s.now ≤ tm then
      some { s with now := tm, calls := Function.update s.calls c (.read tm) }
    else none
  | .count c _ =>
    ((s.critical a).bind s.files.step).map fun files ↦
      { s with files := files, calls := Function.update s.calls c .counted }
  | .fputs _ | .flush =>
    ((s.critical a).bind s.files.step).map fun files ↦ { s with files := files }

/-- No rotation has opened the file of an earlier day than a rotation before it. -/
def Forward (s : ClockedCalls Record) : Prop := s.files.rotated.Pairwise (· ≤ ·)

/-- A call that enters the critical section and opens a file overtakes no call that has read an
earlier date and still has to enter. -/
def NoneOvertaken (s : ClockedCalls Record) : ClockedAction Record → Prop
  | .count c opened => ∀ tm ∈ (s.calls c).date, s.files.Rotates tm → opened = true →
    ∀ c', ∀ tm' ∈ (s.calls c').date, tm ≤ tm'
  | .call _ _ | .fputs _ | .flush => True

variable {s t : ClockedCalls Record} {a : ClockedAction Record}

/-- A count adds the date of its call, where it rotates. -/
theorem mem_opens {s : LogFiles Record} {tm d : MyTime} {opened : Bool}
    (h : d ∈ s.opens (.count tm opened)) : d = tm ∧ s.Rotates tm ∧ opened = true := by
  cases opened with
  | false => cases h
  | true =>
    simp only [LogFiles.opens] at h
    split at h
    · next hrotates => exact ⟨List.mem_singleton.mp h, hrotates, rfl⟩
    · cases h

/-- A section adds at most one date. -/
theorem pairwise_opens (s : LogFiles Record) (b : LogSection Record) :
    (s.opens b).Pairwise (· ≤ ·) := by
  cases b with
  | count tm opened =>
    cases opened with
    | false => exact List.Pairwise.nil
    | true =>
      simp only [LogFiles.opens]
      split
      · exact List.pairwise_singleton _ tm
      · exact List.Pairwise.nil
  | fputs | flush => exact List.Pairwise.nil

/-- What a run keeps in which no rotation overtakes: the calls that wait have read no date before
that of a file that was opened, and none after the last reading. -/
structure Ordered (s : ClockedCalls Record) : Prop where
  forward : s.Forward
  waiting : ∀ d ∈ s.files.rotated, ∀ c tm, (s.calls c).date = some tm → d ≤ tm
  opened : ∀ d ∈ s.files.rotated, d ≤ s.now
  read : ∀ c tm, (s.calls c).date = some tm → tm ≤ s.now

/-- After `init` no call waits, and no rotation has opened a file. -/
theorem ordered_init {fileName : Option (List Char)} {splitLines : Int} {tm : MyTime}
    {files : LogFiles Record} (h : LogFiles.init fileName splitLines tm true = .ok (some files)) :
    (init files tm).Ordered := by
  obtain ⟨dirName, baseName, rfl⟩ := LogFiles.eq_of_init h
  exact ⟨List.Pairwise.nil, nofun, nofun, nofun⟩

/-- A call that has counted waits no more. -/
theorem date_counted {c c' : Nat} {tm : MyTime}
    (h : (Function.update s.calls c .counted c').date = some tm) : (s.calls c').date = some tm := by
  by_cases hc : c' = c
  · rw [hc, Function.update_self] at h
    cases h
  · rwa [Function.update_of_ne hc] at h

/-- A count in which none is overtaken. -/
theorem Ordered.count (h : s.Ordered) {c : Nat} {opened : Bool} {tm : MyTime}
    (at_ : (s.calls c).date = some tm) (hok : s.NoneOvertaken (.count c opened))
    {files : LogFiles Record} (hstep : LogFiles.Step s.files (.count tm opened) files) :
    Ordered { s with files := files, calls := Function.update s.calls c .counted } := by
  have hrotated := hstep.rotated_eq
  have earlier : ∀ d ∈ s.files.rotated, ∀ e ∈ s.files.opens (.count tm opened), d ≤ e := by
    intro d hd e he
    obtain ⟨rfl, -, -⟩ := mem_opens he
    exact h.waiting d hd c e at_
  refine ⟨?_, ?_, ?_, fun c' tm' h' ↦ h.read c' tm' (date_counted h')⟩
  · rw [Forward, hrotated, List.pairwise_append]
    exact ⟨h.forward, pairwise_opens _ _, earlier⟩
  · intro d hd c' tm' h'
    rw [hrotated] at hd
    rcases List.mem_append.mp hd with hd | hd
    · exact h.waiting d hd c' tm' (date_counted h')
    · obtain ⟨rfl, hrotates, hopened⟩ := mem_opens hd
      exact hok d at_ hrotates hopened c' tm' (date_counted h')
  · intro d hd
    rw [hrotated] at hd
    rcases List.mem_append.mp hd with hd | hd
    · exact h.opened d hd
    · obtain ⟨rfl, -, -⟩ := mem_opens hd
      exact h.read c d at_

/-- Every step in which none is overtaken. -/
theorem Ordered.step (h : s.Ordered) (hok : s.NoneOvertaken a) (hstep : s.step a = some t) :
    t.Ordered := by
  cases a with
  | call c tm =>
    simp only [ClockedCalls.step, Option.ite_none_right_eq_some, Option.some.injEq] at hstep
    obtain ⟨⟨-, hnow⟩, rfl⟩ := hstep
    have date {c' : Nat} {tm' : MyTime}
        (h' : (Function.update s.calls c (.read tm) c').date = some tm') :
        tm' = tm ∨ (s.calls c').date = some tm' := by
      by_cases hc : c' = c
      · rw [hc, Function.update_self] at h'
        cases h'
        exact Or.inl rfl
      · rw [Function.update_of_ne hc] at h'
        exact Or.inr h'
    refine ⟨h.forward, fun d hd c' tm' h' ↦ ?_, fun d hd ↦ (h.opened d hd).trans hnow,
      fun c' tm' h' ↦ ?_⟩
    · rcases date h' with rfl | h'
      · exact (h.opened d hd).trans hnow
      · exact h.waiting d hd c' tm' h'
    · rcases date h' with rfl | h'
      · exact le_refl _
      · exact (h.read c' tm' h').trans hnow
  | count c opened =>
    obtain ⟨files, hfiles, rfl⟩ := Option.map_eq_some_iff.mp hstep
    obtain ⟨b, hb, hsection⟩ := Option.bind_eq_some_iff.mp hfiles
    obtain ⟨tm, htm, rfl⟩ := Option.map_eq_some_iff.mp hb
    exact h.count htm hok (LogFiles.step_iff.mp hsection)
  | fputs record | flush =>
    obtain ⟨files, hfiles, rfl⟩ := Option.map_eq_some_iff.mp hstep
    obtain ⟨b, hb, hsection⟩ := Option.bind_eq_some_iff.mp hfiles
    cases hb
    have hrotated := (LogFiles.step_iff.mp hsection).rotated_eq
    rw [LogFiles.opens, List.append_nil] at hrotated
    exact ⟨by rw [Forward, hrotated]; exact h.forward, by rw [hrotated]; exact h.waiting,
      by rw [hrotated]; exact h.opened, h.read⟩

/-- A rotation that opens a file leaves it current, on the day of its call. -/
theorem rotated_of_count {s t : LogFiles Record} {tm : MyTime} (rotates : s.Rotates tm)
    (hstep : LogFiles.Step s (.count tm true) t) :
    tm ∈ t.rotated ∧ t.lToday = tm.day ∧ ∃ i stream, t.Current i stream := by
  have hmem : tm ∈ t.rotated := by
    rw [hstep.rotated_eq, LogFiles.opens, if_pos rotates]
    exact List.mem_append_right _ (List.mem_singleton_self tm)
  refine ⟨hmem, ?_⟩
  cases hstep with
  | stay _ _ stays => exact absurd rotates stays.not_rotates
  | newDay _ _ i stream current day => exact ⟨rfl, _, _, LogFiles.current_fopen _ _⟩
  | newPart _ _ i stream current day split full => exact ⟨day, _, _, LogFiles.current_fopen _ _⟩

/-- A call that was overtaken, and has read another day of the month, goes back when it counts
next. -/
theorem overtaken_goes_back {c c' : Nat} {tm tm' : MyTime} (at_ : (s.calls c).date = some tm)
    (rotates : s.files.Rotates tm) (hstep : s.step (.count c true) = some t)
    (waits : (s.calls c').date = some tm') (earlier : tm' < tm) (day : tm'.day ≠ tm.day) :
    ∃ u, t.step (.count c' true) = some u ∧ ¬ u.Forward := by
  obtain ⟨files, hfiles, rfl⟩ := Option.map_eq_some_iff.mp hstep
  obtain ⟨b, hb, hsection⟩ := Option.bind_eq_some_iff.mp hfiles
  rw [critical, at_] at hb
  cases hb
  obtain ⟨hmem, htoday, i, stream, hcurrent⟩ :=
    rotated_of_count rotates (LogFiles.step_iff.mp hsection)
  have hday : files.lToday ≠ tm'.day := by
    rw [htoday]
    exact day.symm
  have hne : c' ≠ c := by
    rintro rfl
    rw [at_] at waits
    exact day (congrArg MyTime.day (Option.some.inj waits)).symm
  have hback := LogFiles.Step.newDay tm' true i stream hcurrent hday
  refine ⟨_, Option.map_eq_some_iff.mpr ⟨_, Option.bind_eq_some_iff.mpr ⟨_, ?_,
    LogFiles.step_iff.mpr hback⟩, rfl⟩, ?_⟩
  · dsimp only [critical]
    rw [Function.update_of_ne hne, waits]
    rfl
  · intro hforward
    have hopens : files.opens (.count tm' true) = [tm'] := if_pos (Or.inl hday)
    rw [Forward, hback.rotated_eq, hopens, List.pairwise_append] at hforward
    exact absurd (hforward.2.2 tm hmem tm' (List.mem_singleton_self tm')) (not_le.mpr earlier)

end ClockedCalls

/-- In every run in which no call that rotates overtakes a call that has read an earlier date, no
rotation opens the file of an earlier day than one before it; and where one does overtake a call
that has read another day of the month, that call goes back if it counts next. -/
theorem rotations_go_forward {fileName : Option (List Char)} {splitLines : Int} {tm : MyTime}
    {files : LogFiles Record} {s : ClockedCalls Record}
    (hinit : LogFiles.init fileName splitLines tm true = .ok (some files))
    (h : ReachBy ClockedCalls.step ClockedCalls.NoneOvertaken (.init files tm) s) :
    s.Forward ∧ ∀ c c' tm tm' t, (s.calls c).date = some tm → s.files.Rotates tm →
      s.step (.count c true) = some t → (s.calls c').date = some tm' → tm' < tm →
        tm'.day ≠ tm.day → ∃ u, t.step (.count c' true) = some u ∧ ¬ u.Forward := by
  have hordered : s.Ordered :=
    h.invariant (ClockedCalls.ordered_init hinit) fun _ _ _ hs hok hstep ↦ hs.step hok hstep
  refine ⟨hordered.forward, ?_⟩
  intro c c' tm tm' t at_ rotates hstep waits earlier day
  exact ClockedCalls.overtaken_goes_back at_ rotates hstep waits earlier day

/-- A logger with a file of New Year's Eve, for five lines a part. -/
def newYearsEve : LogFiles Nat :=
  ⟨['/'], ['a'], 0, 31, 5, [⟨.daily ⟨2024, 12, 31⟩, [], true⟩], some 0⟩

/-- A call before midnight and one after it, which count in the order of their dates or not. -/
def aroundMidnight (first second : Nat) : List (ClockedAction Nat) :=
  [.call 0 ⟨2024, 12, 31⟩, .call 1 ⟨2025, 1, 1⟩, .count first true, .fputs first,
    .count second true, .fputs second]

/-- The files when the calls count in the order of their dates. -/
theorem in_order_goes_forward :
    ∃ s, run ClockedCalls.step (.init newYearsEve ⟨2024, 12, 31⟩) (aroundMidnight 0 1) = some s ∧
      s.Forward := by
  have hinit : LogFiles.init (some ['/', 'a']) 5 ⟨2024, 12, 31⟩ true = .ok (some newYearsEve) := by
    decide +kernel
  obtain ⟨s, hs⟩ : ∃ s, run ClockedCalls.step (.init newYearsEve ⟨2024, 12, 31⟩)
      (aroundMidnight 0 1) = some s := ⟨_, rfl⟩
  refine ⟨s, hs, (rotations_go_forward hinit (reachBy_of_run hs ?_)).1⟩
  -- the call of the old day does not rotate, and the one of the new day waits alone
  refine .cons trivial rfl (.cons trivial rfl (.cons ?_ rfl (.cons trivial rfl (.cons ?_ rfl
    (.cons trivial rfl trivial)))))
  · intro tm htm hrotates
    cases htm
    exact absurd hrotates (by decide)
  · intro tm htm _ _ c' tm' htm'
    cases htm
    by_cases h0 : c' = 0
    · subst h0
      cases htm'
    · by_cases h1 : c' = 1
      · subst h1
        cases htm'
        exact le_refl _
      · simp [ClockedCalls.init, h0, h1, CountPc.date] at htm'

/-- The call before midnight counts after the rotation, and opens the old day's file again. -/
theorem overtaken_call_goes_back :
    ¬ ∀ (fileName : Option (List Char)) (splitLines : Int) (tm : MyTime) (files : LogFiles Nat)
      (s : ClockedCalls Nat),
      LogFiles.init fileName splitLines tm true = .ok (some files) →
      Reach ClockedCalls.step (.init files tm) s → s.Forward := by
  intro hclaim
  have hinit : LogFiles.init (some ['/', 'a']) 5 ⟨2024, 12, 31⟩ true = .ok (some newYearsEve) := by
    decide +kernel
  obtain ⟨s, hs, hrotated⟩ : ∃ s, run ClockedCalls.step (.init newYearsEve ⟨2024, 12, 31⟩)
      (aroundMidnight 1 0) = some s ∧
      s.files.rotated = [⟨2025, 1, 1⟩, ⟨2024, 12, 31⟩] := ⟨_, rfl, rfl⟩
  have hforward := hclaim _ _ _ _ s hinit (reach_of_run hs)
  rw [ClockedCalls.Forward, hrotated] at hforward
  revert hforward
  decide

end ConcurrentServer.Log
