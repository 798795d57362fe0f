import ConcurrentServer.Log.LogFiles

/-!
# The stream in use

`src/log/log.cpp:157–183, 212–223`, `src/log/log.h:73–77`. A rotation closes `l_fp` before it
knows whether the next file opens, and stores what `fopen` returns without a test. So the stream
that `fputs`, `fflush` and `fclose` get is open as long as every rotation's `fopen` succeeds. A
logger that writes to `stdout` counts and rotates like any other, and its first rotation closes
`stdout`.
-/

namespace ConcurrentServer.Log
open ConcurrentServer.Base

variable {Record : Type}

namespace LogFiles

variable {s t : LogFiles Record} {a : LogSection Record}

/-! ### A file that does not open -/

/-- `l_fp` is an open stream. -/
def Usable (s : LogFiles Record) : Prop := ∃ i stream, s.Current i stream

/-- If the section rotates, its `fopen` succeeds. -/
def RotationOpens (s : LogFiles Record) : LogSection Record → Prop
  | .count tm opened => s.Rotates tm → opened = true
  | .fputs _ | .flush => True

instance (s : LogFiles Record) (a : LogSection Record) : Decidable (s.RotationOpens a) :=
  match a with
  | .count tm opened => inferInstanceAs (Decidable (s.Rotates tm → opened = true))
  | .fputs _ | .flush => inferInstanceAs (Decidable True)

/-- A call on the stream is defined exactly when `l_fp` is an open stream. -/
theorem onStream_isSome_iff {f : LogStream Record → LogStream Record} :
    (s.onStream f).isSome ↔ s.Usable := by
  rw [Option.isSome_iff_exists]
  constructor
  · rintro ⟨t, ht⟩
    obtain ⟨i, stream, hcurrent, -⟩ := onStream_eq_some.mp ht
    exact ⟨i, stream, hcurrent⟩
  · rintro ⟨i, stream, hcurrent⟩
    exact ⟨_, onStream_eq_some.mpr ⟨i, stream, hcurrent, rfl⟩⟩

/-- A logger has an open stream when `init` has returned `true`. -/
theorem usable_init {fileName : Option (List Char)} {splitLines : Int} {tm : MyTime}
    {opened : Bool} (h : init fileName splitLines tm opened = .ok (some s)) : s.Usable := by
  obtain ⟨dirName, baseName, rfl⟩ := eq_of_init h
  exact ⟨0, _, rfl, rfl, rfl⟩

/-- After an `fopen` there is an open stream if it succeeded. -/
theorem usable_fopen_iff {name : FileName} {opened : Bool} :
    (s.fopen name opened).Usable ↔ opened = true := by
  constructor
  · rintro ⟨i, stream, hcurrent⟩
    exact opened_of_current hcurrent
  · intro hopened
    rw [hopened]
    exact ⟨_, _, current_fopen s name⟩

/-- A section keeps an open stream exactly when the rotation that it may make opens its file. -/
theorem Step.usable_iff (hstep : Step s a t) (h : s.Usable) : t.Usable ↔ s.RotationOpens a := by
  obtain ⟨j, other, hcurrent⟩ := h
  cases hstep with
  | stay tm opened stays =>
    constructor
    · intro _ hrotates
      exact absurd hrotates stays.not_rotates
    · intro _
      exact ⟨j, other, hcurrent.lFp, hcurrent.at_, hcurrent.isOpen⟩
  | newDay tm opened i stream current day =>
    rw [usable_fopen_iff]
    constructor
    · intro hopened _
      exact hopened
    · intro hopens
      exact hopens (Or.inl day)
  | newPart tm opened i stream current day split full =>
    rw [usable_fopen_iff]
    constructor
    · intro hopened _
      exact hopened
    · intro hopens
      exact hopens (Or.inr ⟨split, full⟩)
  | fputs record i stream current =>
    constructor
    · intro _
      trivial
    · intro _
      exact ⟨i, _, current.write _⟩
  | flush i stream current =>
    constructor
    · intro _
      trivial
    · intro _
      exact ⟨i, stream, current⟩

end LogFiles

/-- As long as the `fopen` of every rotation succeeds, `l_fp` is an open stream after every
critical section, whichever threads run them; and a further section leaves it one exactly when
its rotation's `fopen` succeeds too. -/
theorem stream_open_while_fopen_succeeds {fileName : List Char} {splitLines : Int} {tm : MyTime}
    {s₀ s : LogFiles Record}
    (hinit : LogFiles.init (some fileName) splitLines tm true = .ok (some s₀))
    (h : ReachBy LogFiles.step LogFiles.RotationOpens s₀ s) :
    s.Usable ∧ ∀ a t, s.step a = some t → (t.Usable ↔ s.RotationOpens a) := by
  have husable : s.Usable := by
    apply h.invariant
    · exact LogFiles.usable_init hinit
    · intro u a t hu hok hstep
      exact ((LogFiles.step_iff.mp hstep).usable_iff hu).mpr hok
  refine ⟨husable, ?_⟩
  intro a t hstep
  exact (LogFiles.step_iff.mp hstep).usable_iff husable

/-- A logger with a file of this day, for two lines a part. -/
def ofFifthJanuary : LogFiles Nat :=
  ⟨['/'], ['a'], 0, 5, 2, [⟨.daily ⟨2024, 1, 5⟩, [], true⟩], some 0⟩

/-- Two calls and a flush, the second with a rotation. -/
def rotationThenFlush (opened : Bool) : List (LogSection Nat) :=
  [.count ⟨2024, 1, 5⟩ opened, .fputs 1, .count ⟨2024, 1, 5⟩ opened, .fputs 2, .flush]

/-- The stream of that logger after a rotation. -/
theorem rotation_then_flush_stream_open :
    ∃ s, run LogFiles.step ofFifthJanuary (rotationThenFlush true) = some s ∧
      s.Usable ∧ ∀ a t, s.step a = some t → (t.Usable ↔ s.RotationOpens a) := by
  have hrun : (run LogFiles.step ofFifthJanuary (rotationThenFlush true)).isSome := by
    decide +kernel
  have hok : Admits LogFiles.step LogFiles.RotationOpens ofFifthJanuary
      (rotationThenFlush true) := by
    decide +kernel
  obtain ⟨s, hs⟩ := Option.isSome_iff_exists.mp hrun
  have hinit : LogFiles.init (some ['/', 'a']) 2 ⟨2024, 1, 5⟩ true =
      .ok (some ofFifthJanuary) := by
    decide +kernel
  exact ⟨s, hs, stream_open_while_fopen_succeeds hinit (reachBy_of_run hs hok)⟩

/-- A rotation whose `fopen` fails leaves the logger without a stream. -/
theorem failing_rotation_leaves_no_stream :
    ¬ ∀ (fileName : List Char) (splitLines : Int) (tm : MyTime) (s₀ s : LogFiles Nat),
      LogFiles.init (some fileName) splitLines tm true = .ok (some s₀) →
      Reach LogFiles.step s₀ s → s.Usable := by
  intro hclaim
  have hinit : LogFiles.init (some ['/', 'a']) 2 ⟨2024, 1, 5⟩ true =
      .ok (some ofFifthJanuary) := by
    decide +kernel
  obtain ⟨s, hs, hfp⟩ : ∃ s, run LogFiles.step ofFifthJanuary
      ((rotationThenFlush false).take 3) = some s ∧ s.lFp = none := ⟨_, rfl, rfl⟩
  obtain ⟨i, stream, hcurrent⟩ := hclaim _ _ _ _ s hinit (reach_of_run hs)
  rw [hcurrent.lFp] at hfp
  cases hfp

/-! ### Standard output -/

/-- The section is a call's count. -/
def LogSection.isCount : LogSection Record → Bool
  | .count _ _ => true
  | .fputs _ | .flush => false

namespace LogFiles

variable {s t : LogFiles Record} {a : LogSection Record}

/-- A section that counts does not rotate. -/
def CountStays (s : LogFiles Record) : LogSection Record → Prop
  | .count tm _ => s.Stays tm
  | .fputs _ | .flush => True

/-- Nothing but `stdout` has been opened, and `counted` calls have been counted. -/
structure StdoutOnly (s : LogFiles Record) (today splitLines : Int) (counted : Nat) : Prop where
  streams : ∃ records, s.streams = [⟨.stdout, records, true⟩]
  lFp : s.lFp = some 0
  lToday : s.lToday = today
  lSplitLines : s.lSplitLines = splitLines
  lCount : s.lCount = counted

variable {today splitLines : Int} {counted : Nat}

/-- `stdout` is current. -/
theorem StdoutOnly.current (h : s.StdoutOnly today splitLines counted) :
    ∃ records, s.streams = [⟨.stdout, records, true⟩] ∧
      s.Current 0 ⟨.stdout, records, true⟩ := by
  obtain ⟨records, hstreams⟩ := h.streams
  refine ⟨records, hstreams, h.lFp, ?_, rfl⟩
  rw [hstreams]
  rfl

/-- A section that does not rotate can be run, and opens nothing. -/
theorem StdoutOnly.move (h : s.StdoutOnly today splitLines counted) (hok : s.CountStays a) :
    ∃ t, s.step a = some t ∧
      t.StdoutOnly today splitLines (counted + if a.isCount then 1 else 0) := by
  obtain ⟨records, hstreams, hcurrent⟩ := h.current
  cases a with
  | count tm opened =>
    refine ⟨_, step_iff.mpr (.stay tm opened hok), h.streams, h.lFp, h.lToday, h.lSplitLines, ?_⟩
    show s.lCount + 1 = ((counted + 1 : Nat) : Int)
    rw [h.lCount]
    rfl
  | fputs record =>
    refine ⟨_, step_iff.mpr (.fputs record 0 _ hcurrent), ?_, h.lFp, h.lToday, h.lSplitLines,
      h.lCount⟩
    rw [hstreams]
    exact ⟨records ++ [record], rfl⟩
  | flush => exact ⟨s, step_iff.mpr (.flush 0 _ hcurrent), h⟩

end LogFiles

end ConcurrentServer.Log
