import ConcurrentServer.Base.CString
import ConcurrentServer.Base.Decimal
import ConcurrentServer.Base.Int32
import ConcurrentServer.Log.Logging

/-!
# The text of a record

`src/log/log.cpp:13–28, 185–217`. `write_log` formats a record in `l_buf`: first the time, the level
and the place, cut to 299 characters; behind that the message; then a newline and a terminator.
Both `snprintf` return the length of the text that was not cut, and these lengths are the indexes of
what follows. They may be any; an index that an `int` cannot hold is behind the buffer already.
-/

namespace ConcurrentServer.Log
open ConcurrentServer.Base

/-- `Logger::log_level`; `src/log/log.h:21–28`. -/
inductive LogLevel
  | error
  | warn
  | info
  | debug
  deriving DecidableEq, Repr

/-- `LogLevelName`; `src/log/log.cpp:12–18`. -/
def LogLevel.name : LogLevel → List Char
  | .error => "[ERROR]".toList
  | .warn => "[WARN ]".toList
  | .info => "[INFO ]".toList
  | .debug => "[DEBUG]".toList

/-- A call of `write_log`: what the clock read, the arguments, and the message that `format` and
the arguments behind it give; `src/log/log.cpp:153–155`. -/
structure WriteLog where
  myTm : MyTime
  hour : Int
  minute : Int
  second : Int
  fileName : List Char
  tnCallbackname : List Char
  lineNo : Int
  level : LogLevel
  message : List Char
  deriving DecidableEq, Repr

namespace WriteLog

/-- `"%04d-%02d-%02d %02d:%02d:%02d %s [%s:%s:%d] "`; `src/log/log.cpp:193–196`. -/
def head (c : WriteLog) : List Char :=
  zeroPad 4 c.myTm.year ++ '-' :: (zeroPad 2 c.myTm.month ++ '-' :: (zeroPad 2 c.myTm.day ++
    ' ' :: (zeroPad 2 c.hour ++ ':' :: (zeroPad 2 c.minute ++ ':' :: (zeroPad 2 c.second ++
      ' ' :: (c.level.name ++ ' ' :: '[' :: (c.fileName ++ ':' :: (c.tnCallbackname ++
        ':' :: (decimal c.lineNo ++ [']', ' '])))))))))

/-- What a call writes to `l_buf`; `src/log/log.cpp:193–200`. -/
def stores (c : WriteLog) (lBufSize : Int) : List Store :=
  let n : Int := c.head.length
  let m : Int := c.message.length
  [snprintf 0 300 c.head, snprintf n (sizeT (lBufSize - 1)) c.message,
    ⟨n + m, [Char.ofNat 10]⟩, ⟨n + m + 1, [nul]⟩]

/-- `log_str`, which goes to the queue or to the file, for a buffer with any content before the
call; `src/log/log.cpp:201`. -/
def logStr (c : WriteLog) (lBufSize : Int) (lBuf : Int → Char) : List Char :=
  cString (stored lBuf (c.stores lBufSize)) lBufSize

/-- The text that a record should have. -/
def text (c : WriteLog) : List Char := c.head ++ c.message ++ [Char.ofNat 10]

/-- Head, message, newline and terminator fit into the buffer. -/
def Fits (c : WriteLog) (lBufSize : Int) : Prop :=
  (c.head.length : Int) + c.message.length + 2 ≤ lBufSize

instance (c : WriteLog) (lBufSize : Int) : Decidable (c.Fits lBufSize) :=
  inferInstanceAs (Decidable (_ ≤ _))

variable {c : WriteLog} {lBufSize : Int} {lBuf : Int → Char}

/-- The length of the text. -/
theorem length_text : c.text.length = c.head.length + c.message.length + 1 := by
  rw [text, List.length_append, List.length_append, List.length_singleton]

/-- A call writes inside the buffer exactly when everything fits. -/
theorem inside_iff_fits : (∀ w ∈ c.stores lBufSize, w.Inside lBufSize) ↔ c.Fits lBufSize := by
  simp only [stores, List.forall_mem_cons, List.not_mem_nil, false_implies, implies_true, and_true,
    inside_singleton, Fits]
  constructor
  · rintro ⟨-, -, -, hlast⟩
    omega
  · intro hfits
    refine ⟨inside_snprintf ?_ ?_, inside_snprintf ?_ ?_, ?_, ?_⟩
    · exact Int.le_refl 0
    · omega
    · omega
    · omega
    · omega
    · omega

/-- The message is stored behind the head, in whole if everything fits. -/
theorem Fits.snprintf_message (h : c.Fits lBufSize) (hint : lBufSize ≤ intMax) :
    snprintf c.head.length (sizeT (lBufSize - 1)) c.message =
      ⟨c.head.length, c.message ++ [nul]⟩ := by
  have hmax : intMax = 2 ^ 31 - 1 := rfl
  unfold Fits at h
  have hsize : (sizeT (lBufSize - 1) : Int) = lBufSize - 1 := sizeT_of_range (by omega) (by omega)
  apply snprintf_of_lt
  omega

/-- With a head that is not cut, the buffer begins with the text and a terminator. -/
theorem Fits.window_stored (h : c.Fits lBufSize) (hint : lBufSize ≤ intMax)
    (hhead : c.head.length < 300) :
    window (stored lBuf (c.stores lBufSize)) 0 (c.text ++ [nul]).length = c.text ++ [nul] := by
  rw [stores, h.snprintf_message hint, snprintf_of_lt hhead]
  simp only [stored, List.foldl_cons, List.foldl_nil]
  -- Each store overwrites the terminator of the one before.
  have hfirst : window (storeAt lBuf 0 (c.head ++ [nul])) 0 c.head.length = c.head :=
    window_of_append window_storeAt_self
  have hsecond := window_storeAt_behind (b := c.message ++ [nul]) hfirst rfl
  rw [← List.append_assoc] at hsecond
  have hend : (c.head.length : Int) + c.message.length = (c.head ++ c.message).length := by
    rw [List.length_append, Int.natCast_add]
  have hthird := window_storeAt_behind (b := [Char.ofNat 10]) (window_of_append hsecond) hend
  exact window_storeAt_behind hthird (by rw [length_text]; omega)

/-- A head that is cut ends the record. -/
theorem window_stored_of_long (hhead : 300 ≤ c.head.length) :
    window (stored lBuf (c.stores lBufSize)) 0 (c.head.take 299 ++ [nul]).length =
      c.head.take 299 ++ [nul] := by
  have hcut : (c.head.take 299 ++ [nul]).length = 300 := by
    rw [List.length_append, List.length_take, List.length_singleton]
    omega
  rw [stores, snprintf]
  simp only [stored, List.foldl_cons, List.foldl_nil, off_snprintf]
  rw [window_storeAt_before (by omega), window_storeAt_before (by omega),
    window_storeAt_before (by omega), window_storeAt_self]

/-- A record with a head that is not cut. -/
theorem Fits.logStr_of_short (h : c.Fits lBufSize) (hint : lBufSize ≤ intMax)
    (hhead : nul ∉ c.head) (hmessage : nul ∉ c.message) (hshort : c.head.length < 300) :
    c.logStr lBufSize lBuf = c.text := by
  apply cString_of_window
  · have hnewline : nul ∉ [Char.ofNat 10] := by decide
    rw [text, List.mem_append, List.mem_append]
    rintro ((hin | hin) | hin)
    · exact hhead hin
    · exact hmessage hin
    · exact hnewline hin
  · exact h.window_stored hint hshort
  · unfold Fits at h
    rw [List.length_append, length_text, List.length_singleton]
    omega

/-- A record with a head that is cut. -/
theorem Fits.logStr_of_long (h : c.Fits lBufSize) (hhead : nul ∉ c.head)
    (hlong : 300 ≤ c.head.length) : c.logStr lBufSize lBuf = c.head.take 299 := by
  apply cString_of_window
  · intro hin
    exact hhead (List.mem_of_mem_take hin)
  · exact window_stored_of_long hlong
  · unfold Fits at h
    rw [List.length_append, List.length_take, List.length_singleton]
    omega

/-- A head that is cut is not the text. -/
theorem take_ne_text (hlong : 300 ≤ c.head.length) : c.head.take 299 ≠ c.text := by
  intro heq
  have hlength := congrArg List.length heq
  rw [length_text, List.length_take] at hlength
  omega

end WriteLog

/-- In a buffer of any size, a call with any names, line number and message writes inside the buffer
exactly when head, message, newline and terminator fit into it. -/
theorem write_log_inside_iff (c : WriteLog) (lBufSize : Int) :
    (∀ w ∈ c.stores lBufSize, w.Inside lBufSize) ↔ c.Fits lBufSize :=
  WriteLog.inside_iff_fits

/-- A call on the first day of 2024. -/
def newYear (fileName message : List Char) : WriteLog where
  myTm := ⟨2024, 1, 1⟩
  hour := 0
  minute := 0
  second := 0
  fileName := fileName
  tnCallbackname := "main".toList
  lineNo := 7
  level := .info
  message := message

/-- A message as long as the default buffer does not fit behind a head. -/
theorem long_message_overflows :
    ¬ ∀ lBufSize : Int, 8192 ≤ lBufSize → ∀ c : WriteLog, ∀ w ∈ c.stores lBufSize,
      w.Inside lBufSize := by
  intro h
  have hfits := WriteLog.inside_iff_fits.mp
    (h 8192 (Int.le_refl _) (newYear [] (List.replicate 8192 (Char.ofNat 120))))
  have hlength : (newYear [] (List.replicate 8192 (Char.ofNat 120))).message.length = 8192 :=
    List.length_replicate
  rw [WriteLog.Fits, hlength] at hfits
  omega

/-- Whatever was in the buffer, of a call whose head and message contain no terminator and fit into
it the record is head, message and newline exactly when the head has fewer than 300 characters. -/
theorem record_is_text_iff {c : WriteLog} {lBufSize : Int} (hhead : nul ∉ c.head)
    (hmessage : nul ∉ c.message) (hint : lBufSize ≤ intMax) (hfits : c.Fits lBufSize)
    (lBuf : Int → Char) : c.logStr lBufSize lBuf = c.text ↔ c.head.length < 300 := by
  constructor
  · intro htext
    apply Nat.lt_of_not_le
    intro hlong
    rw [hfits.logStr_of_long hhead hlong] at htext
    exact WriteLog.take_ne_text hlong htext
  · exact hfits.logStr_of_short hint hhead hmessage

/-- The record of a call with short names. -/
theorem record_of_short_names :
    (newYear "main.cpp".toList "up".toList).logStr 8192 (fun _ ↦ Char.ofNat 120) =
        (newYear "main.cpp".toList "up".toList).text ↔
      (newYear "main.cpp".toList "up".toList).head.length < 300 :=
  record_is_text_iff (by decide +kernel) (by decide) (by decide) (by decide +kernel) _

/-- The path of a source file may be longer than the head. -/
theorem long_path_cuts_record :
    ¬ ∀ (c : WriteLog) (lBufSize : Int) (lBuf : Int → Char), nul ∉ c.head → nul ∉ c.message →
      lBufSize ≤ intMax → c.Fits lBufSize → c.logStr lBufSize lBuf = c.text := by
  intro h
  have hhead : nul ∉ (newYear (List.replicate 300 'a') []).head := by decide +kernel
  have hfits : (newYear (List.replicate 300 'a') []).Fits 8192 := by decide +kernel
  have hlong : 300 ≤ (newYear (List.replicate 300 'a') []).head.length := by decide +kernel
  have htext := h _ 8192 (fun _ ↦ nul) hhead (by decide) (by decide) hfits
  rw [hfits.logStr_of_long hhead hlong] at htext
  exact WriteLog.take_ne_text hlong htext

end ConcurrentServer.Log
