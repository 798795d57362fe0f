import ConcurrentServer.Base.Lines
import ConcurrentServer.Log.FileNames
import ConcurrentServer.Log.Record

/-!
# Reading a log back

`src/log/log.cpp:185–217`. A line of the log begins with the time, the level and the place of the
call. With names that have no colon, and messages whose newlines are all at the end as in the
server's own calls, every field and the end of every record can be recognised.
-/

namespace ConcurrentServer.Log
open ConcurrentServer.Base

/-- The newline character. -/
def newline : Char := Char.ofNat 10

namespace LogLevel

variable {l l' : LogLevel} {rest rest' : List Char}

/-- The names of the levels are equally long. -/
@[simp] theorem length_name : l.name.length = 7 := by
  cases l <;> rfl

/-- The name of a level is read back. -/
theorem name_inj (same : l.name ++ rest = l'.name ++ rest') : l = l' ∧ rest = rest' := by
  obtain ⟨hname, hrest⟩ := List.append_inj same (by simp)
  refine ⟨?_, hrest⟩
  revert hname
  cases l <;> cases l' <;> decide

end LogLevel

namespace WriteLog

/-- The time is one of the calendar and the clock, names have no colon, and behind a newline of the
message there are only newlines. -/
structure Readable (c : WriteLog) : Prop where
  date : c.myTm.Valid
  hour : 0 ≤ c.hour ∧ c.hour ≤ 23
  minute : 0 ≤ c.minute ∧ c.minute ≤ 59
  second : 0 ≤ c.second ∧ c.second ≤ 60
  fileName : ':' ∉ c.fileName
  tnCallbackname : ':' ∉ c.tnCallbackname
  lineNo : 0 ≤ c.lineNo
  message : ∃ body ends, newline ∉ body ∧ c.message = body ++ List.replicate ends newline

/-- What calls made one at a time hand to the queue or to the file. Each formats in `l_buf`, over
what the call before it has left there. -/
def handed (lBufSize : Int) : (Int → Char) → List WriteLog → List Char
  | _, [] => []
  | lBuf, c :: calls =>
    c.logStr lBufSize lBuf ++ handed lBufSize (stored lBuf (c.stores lBufSize)) calls

variable {c d : WriteLog} {rest rest' : List Char}

/-- Everything but the message is read back. -/
theorem Readable.head_inj (hc : c.Readable) (hd : d.Readable)
    (same : c.head ++ rest = d.head ++ rest') :
    { c with message := d.message } = d ∧ rest = rest' := by
  obtain ⟨hyear, hmonth, hday⟩ := hc.date
  obtain ⟨hyear', hmonth', hday'⟩ := hd.date
  obtain ⟨hh, hh'⟩ := hc.hour, hd.hour
  obtain ⟨hm, hm'⟩ := hc.minute, hd.minute
  obtain ⟨hs, hs'⟩ := hc.second, hd.second
  simp only [head, List.append_assoc, List.cons_append] at same
  obtain ⟨eyear, same⟩ := numeral_inj (by decide) (by omega) (by omega) same
  obtain ⟨emonth, same⟩ := numeral_inj (by decide) (by omega) (by omega) (List.cons.inj same).2
  obtain ⟨eday, same⟩ := numeral_inj (by decide) (by omega) (by omega) (List.cons.inj same).2
  obtain ⟨ehour, same⟩ := numeral_inj (by decide) (by omega) (by omega) (List.cons.inj same).2
  obtain ⟨eminute, same⟩ := numeral_inj (by decide) (by omega) (by omega) (List.cons.inj same).2
  obtain ⟨esecond, same⟩ := numeral_inj (by decide) (by omega) (by omega) (List.cons.inj same).2
  obtain ⟨elevel, same⟩ := LogLevel.name_inj (List.cons.inj same).2
  have hplace := (List.cons.inj (List.cons.inj same).2).2
  obtain ⟨efile, same⟩ := field_inj hc.fileName hd.fileName hplace
  obtain ⟨ecallback, same⟩ := field_inj hc.tnCallbackname hd.tnCallbackname same
  have hbracket {k : Int} (hk : 0 ≤ k) : ']' ∉ decimal k :=
    fun hin ↦ absurd (isDigit_of_mem_zeroPad hk hin) (by decide)
  obtain ⟨eline, same⟩ := field_inj (hbracket hc.lineNo) (hbracket hd.lineNo) same
  have hline := zeroPad_inj hc.lineNo hd.lineNo eline
  refine ⟨?_, (List.cons.inj same).2⟩
  obtain ⟨⟨_, _, _⟩, _, _, _, _, _, _, _, _⟩ := c
  obtain ⟨⟨_, _, _⟩, _, _, _, _, _, _, _, _⟩ := d
  simp_all

/-- A line does not begin with a newline. -/
theorem Readable.text_head? (h : c.Readable) : (c.text ++ rest).head? ≠ some newline := by
  obtain ⟨hyear, -, -⟩ := h.date
  have hlength : (zeroPad 4 c.myTm.year).length = 4 :=
    length_zeroPad (by decide) hyear.1 (by omega)
  rw [text, head]
  cases hdigits : zeroPad 4 c.myTm.year with
  | nil =>
    rw [hdigits] at hlength
    cases hlength
  | cons digit digits =>
    intro hnewline
    cases hnewline
    have hin : newline ∈ zeroPad 4 c.myTm.year := hdigits ▸ List.mem_cons_self
    exact absurd (isDigit_of_mem_zeroPad hyear.1 hin) (by decide)

/-- In front of other lines, a line is read back. -/
theorem Readable.text_inj (hc : c.Readable) (hd : d.Readable) (behind : rest.head? ≠ some newline)
    (behind' : rest'.head? ≠ some newline) (same : c.text ++ rest = d.text ++ rest') : c = d := by
  simp only [text, List.append_assoc] at same
  obtain ⟨hplace, same⟩ := hc.head_inj hd same
  obtain ⟨body, ends, hfree, hmessage⟩ := hc.message
  obtain ⟨body', ends', hfree', hmessage'⟩ := hd.message
  have hends (n : Nat) (r : List Char) : List.replicate n newline ++ ([newline] ++ r) =
      newline :: (List.replicate n newline ++ r) := by
    rw [← List.append_assoc, ← List.replicate_succ', List.replicate_succ, List.cons_append]
  change c.message ++ ([newline] ++ rest) = d.message ++ ([newline] ++ rest') at same
  rw [hmessage, hmessage', List.append_assoc, List.append_assoc, hends, hends] at same
  obtain ⟨hbody, same⟩ := field_inj hfree hfree' same
  obtain ⟨hcount, -⟩ := replicate_inj behind behind' same
  have hboth : c.message = d.message := by rw [hmessage, hmessage', hbody, hcount]
  rw [← hplace, ← hboth]

/-- The head is not cut, everything fits into the buffer, and nothing ends the string early. -/
structure Whole (c : WriteLog) (lBufSize : Int) : Prop where
  short : c.head.length < 300
  fits : c.Fits lBufSize
  head : nul ∉ c.head
  message : nul ∉ c.message

instance (c : WriteLog) (lBufSize : Int) : Decidable (c.Whole lBufSize) :=
  decidable_of_iff (c.head.length < 300 ∧ c.Fits lBufSize ∧ nul ∉ c.head ∧ nul ∉ c.message)
    ⟨fun h ↦ ⟨h.1, h.2.1, h.2.2.1, h.2.2.2⟩, fun h ↦ ⟨h.short, h.fits, h.head, h.message⟩⟩

/-- What was in the buffer does not show. -/
theorem handed_eq {lBufSize : Int} (hint : lBufSize ≤ intMax) {lBuf : Int → Char}
    {calls : List WriteLog} (h : ∀ c ∈ calls, c.Whole lBufSize) :
    handed lBufSize lBuf calls = (calls.map text).flatten := by
  induction calls generalizing lBuf with
  | nil => rfl
  | cons c calls ih =>
    obtain ⟨hc, hcalls⟩ := List.forall_mem_cons.mp h
    rw [handed, hc.fits.logStr_of_short hint hc.head hc.message hc.short, ih hcalls]
    rfl

/-- No other line begins with a newline. -/
theorem head?_texts {calls : List WriteLog} (h : ∀ c ∈ calls, c.Readable) :
    (calls.map text).flatten.head? ≠ some newline := by
  cases calls with
  | nil =>
    intro hnewline
    cases hnewline
  | cons c calls => exact (h c List.mem_cons_self).text_head?

end WriteLog

open WriteLog in
/-- A log can be read back. Two sequences of readable calls, whose heads are not cut and which fit
into the buffer, hand over the same characters only if they are the same calls, whatever the buffer
held before them. -/
theorem log_read_back {lBufSize : Int} (hint : lBufSize ≤ intMax) {calls calls' : List WriteLog}
    (readable : ∀ c ∈ calls, c.Readable) (readable' : ∀ c ∈ calls', c.Readable)
    (whole : ∀ c ∈ calls, c.Whole lBufSize) (whole' : ∀ c ∈ calls', c.Whole lBufSize)
    (lBuf lBuf' : Int → Char) :
    handed lBufSize lBuf calls = handed lBufSize lBuf' calls' ↔ calls = calls' := by
  rw [handed_eq hint whole, handed_eq hint whole']
  constructor
  · refine flatten_inj ?_ ?_ readable readable'
    · intro c _
      exact List.ne_nil_of_length_pos (by rw [length_text]; omega)
    · intro c d l l' hc hd hl hl'
      exact hc.text_inj hd (head?_texts hl) (head?_texts hl')
  · intro hcalls
    rw [hcalls]

/-- A call with a name and a message that have neither colon nor newline, but for newlines at the
message's end. -/
theorem readable_newYear {fileName body : List Char} (ends : Nat) (hname : ':' ∉ fileName)
    (hbody : newline ∉ body) :
    (newYear fileName (body ++ List.replicate ends newline)).Readable where
  date := (by decide : (⟨2024, 1, 1⟩ : MyTime).Valid)
  hour := (by decide : (0 : Int) ≤ 0 ∧ (0 : Int) ≤ 23)
  minute := (by decide : (0 : Int) ≤ 0 ∧ (0 : Int) ≤ 59)
  second := (by decide : (0 : Int) ≤ 0 ∧ (0 : Int) ≤ 60)
  fileName := hname
  tnCallbackname := (by decide : ':' ∉ "main".toList)
  lineNo := (by decide : (0 : Int) ≤ 7)
  message := ⟨body, ends, hbody, rfl⟩

/-- Two calls, the first of which ends its message with some newlines. -/
def upAndDown (ends : Nat) : List WriteLog :=
  [newYear "net.cpp".toList ("up".toList ++ List.replicate ends newline),
    newYear "net.cpp".toList ("down".toList ++ List.replicate 0 newline)]

/-- A newline more at the end of a message is told from none. -/
theorem newline_at_end_read_back :
    WriteLog.handed 8192 (fun _ ↦ nul) (upAndDown 1) ≠
      WriteLog.handed 8192 (fun _ ↦ 'x') (upAndDown 0) := by
  have hreadable (ends : Nat) : ∀ c ∈ upAndDown ends, c.Readable := by
    intro c hc
    rcases List.mem_cons.mp hc with rfl | hc
    · exact readable_newYear ends (by decide) (by decide)
    · rw [List.mem_singleton.mp hc]
      exact readable_newYear 0 (by decide) (by decide)
  rw [Ne, log_read_back (by decide) (hreadable 1) (hreadable 0) (by decide +kernel)
    (by decide +kernel)]
  decide

end ConcurrentServer.Log
