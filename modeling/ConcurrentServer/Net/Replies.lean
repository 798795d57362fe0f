import ConcurrentServer.Memory.OutputInterest
import ConcurrentServer.Memory.ReadBounds
import ConcurrentServer.Net.TcpConn

/-!
# Replies come back in order

`src/net/tcp_conn.cpp:45–113`, `src/net/tests/echo_server.cpp:28–38`. From the readable event to
the bytes on the wire: what a connection has written, followed by what its `tc_obuf` holds, are the
replies to the messages that it has read, in order, however the server's connections interleave.
-/

namespace ConcurrentServer.Net
open ConcurrentServer.Base ConcurrentServer.Memory

/-! ### What one connection owns -/

/-- What one connection owns. -/
structure ConnView where
  ibuf : View
  obuf : View
  tcFd : Int
  released : List Int
  cleaned : Nat

namespace ConnView

/-- `tc_ibuf` as a part of its connection. -/
def ibufPart : Part ConnView View where
  get := ibuf
  put v l := { l with ibuf := v }
  get_put _ _ := rfl
  put_get _ := rfl
  put_put _ _ _ := rfl

/-- `tc_obuf` as a part of its connection. -/
def obufPart : Part ConnView View where
  get := obuf
  put v l := { l with obuf := v }
  get_put _ _ := rfl
  put_get _ := rfl
  put_put _ _ _ := rfl

end ConnView

/-- The statements of `tc_ibuf`, whose stores must stay inside its chunk. -/
def ibufSpec : LocalSpec Effect Effect.Result Input Halt View where
  ok e l := View.Ok e l ∧ View.Inside e l
  legal e inp _ := Promised (.ibuf e) inp
  act e inp l out := View.Act e inp l out ∧ Answers e inp out

/-- The statements of `tc_obuf`. -/
abbrev obufSpec : LocalSpec Effect Effect.Result Input Halt View :=
  View.spec fun e inp _ ↦ Promised (.obuf e) inp

instance : View.Narrows ibufSpec True fun result _ ↦ ∀ need ∈ result, 0 ≤ need where
  ok hok inside := ⟨hok, inside trivial⟩
  act hact := hact.1
  reports := by
    rintro fd inp l result l' hlegal ⟨-, reported, _, rfl, he⟩ need hneed
    cases he
    cases reported with
    | none => cases hneed
    | some reported =>
      cases hneed
      exact hlegal

/-- What the statements of a connection may do to what it owns. -/
def connSpec : LocalSpec ConnEffect ConnEffect.Result Input Halt ConnView where
  ok
    | .ibuf e, l => ibufSpec.ok e l.ibuf
    | .obuf e, l => obufSpec.ok e l.obuf
    | _, _ => True
  legal e inp _ := Promised e inp
  act
    | .ibuf e, inp, l, out =>
      match out with
      | .value r l' => ∃ v, ibufSpec.act e inp l.ibuf (.value r v) ∧ l' = { l with ibuf := v }
      | .halt h => ibufSpec.act e inp l.ibuf (.halt h)
    | .obuf e, inp, l, out =>
      match out with
      | .value r l' => ∃ v, obufSpec.act e inp l.obuf (.value r v) ∧ l' = { l with obuf := v }
      | .halt h => obufSpec.act e inp l.obuf (.halt h)
    | .tcFd, _, l, out => out = .value l.tcFd l
    | .setTcFd fd, _, l, out => out = .value () { l with tcFd := fd }
    | .delFd fd, _, l, out =>
      out = .value () { l with obuf.trace := l.obuf.trace.poll (.del fd true) }
    | .close fd, _, l, out => out = .value () { l with released := l.released ++ [fd] }
    | .doClean, _, l, out => out = .value () { l with cleaned := l.cleaned + 1 }

theorem embeds_ibuf :
    Embeds ibufSpec connSpec ConnEffect.ibuf (fun _ r ↦ r) ConnView.ibufPart where
  ok h := h
  legal h := h
  value h := h
  halt h := h

theorem embeds_obuf :
    Embeds obufSpec connSpec ConnEffect.obuf (fun _ r ↦ r) ConnView.obufPart where
  ok h := h
  legal h := h
  value h := h
  halt h := h

/-! ### Rules -/

section Rules

variable {mayHalt : Halt → Prop} {α : Type} {vi vo : View} {fd : Int} {released : List Int}
  {cleaned : Nat}

theorem wp_ibuf {p : BufProg α} {Q : α → ConnView → Prop}
    (h : wp ibufSpec mayHalt p (fun a v ↦ Q a ⟨v, vo, fd, released, cleaned⟩) vi) :
    wp connSpec mayHalt (ConnProg.ibuf p) Q ⟨vi, vo, fd, released, cleaned⟩ :=
  embeds_ibuf.wp_embed h

theorem wp_obuf {p : BufProg α} {Q : α → ConnView → Prop}
    (h : wp obufSpec mayHalt p (fun a v ↦ Q a ⟨vi, v, fd, released, cleaned⟩) vo) :
    wp connSpec mayHalt (ConnProg.obuf p) Q ⟨vi, vo, fd, released, cleaned⟩ :=
  embeds_obuf.wp_embed h

theorem wp_tcFd {Q : Int → ConnView → Prop} (h : Q fd ⟨vi, vo, fd, released, cleaned⟩) :
    wp connSpec mayHalt ConnProg.tcFd Q ⟨vi, vo, fd, released, cleaned⟩ :=
  wp_perform trivial (fun _ _ _ _ hact ↦ by cases hact; exact h) nofun

theorem wp_setTcFd {fd' : Int} {Q : Unit → ConnView → Prop}
    (h : Q () ⟨vi, vo, fd', released, cleaned⟩) :
    wp connSpec mayHalt (ConnProg.setTcFd fd') Q ⟨vi, vo, fd, released, cleaned⟩ :=
  wp_perform trivial (fun _ _ _ _ hact ↦ by cases hact; exact h) nofun

theorem wp_delFd {fd' : Int} {Q : Unit → ConnView → Prop}
    (h : Q () ⟨vi, { vo with trace := vo.trace.poll (.del fd' true) }, fd, released, cleaned⟩) :
    wp connSpec mayHalt (ConnProg.delFd fd') Q ⟨vi, vo, fd, released, cleaned⟩ :=
  wp_perform trivial (fun _ _ _ _ hact ↦ by cases hact; exact h) nofun

theorem wp_close {fd' : Int} {Q : Unit → ConnView → Prop}
    (h : Q () ⟨vi, vo, fd, released ++ [fd'], cleaned⟩) :
    wp connSpec mayHalt (ConnProg.close fd') Q ⟨vi, vo, fd, released, cleaned⟩ :=
  wp_perform trivial (fun _ _ _ _ hact ↦ by cases hact; exact h) nofun

theorem wp_doClean {Q : Unit → ConnView → Prop} (h : Q () ⟨vi, vo, fd, released, cleaned + 1⟩) :
    wp connSpec mayHalt ConnProg.doClean Q ⟨vi, vo, fd, released, cleaned⟩ :=
  wp_perform trivial (fun _ _ _ _ hact ↦ by cases hact; exact h) nofun

variable {bi bo : Option (Nat × Chunk)} {tri tr : Trace}

/-- `do_close` empties both buffers, and closes and forgets the descriptor. -/
theorem wp_doClose {Q : Unit → ConnView → Prop}
    (h : Q () ⟨.idle none tri, .idle none (tr.poll (.del fd true)), -1, released ++ [fd],
      cleaned + 1⟩) :
    wp connSpec mayHalt ConnProg.doClose Q ⟨.idle bi tri, .idle bo tr, fd, released, cleaned⟩ := by
  refine wp_bind.mpr (wp_tcFd (wp_bind.mpr (wp_delFd ?_)))
  rw [View.trace_idle bo fun tr ↦ tr.poll (.del fd true)]
  refine wp_bind.mpr (wp_ibuf (wp_clear ?_))
  refine wp_bind.mpr (wp_obuf (wp_clear ?_))
  exact wp_bind.mpr (wp_tcFd (wp_bind.mpr (wp_setTcFd (wp_bind.mpr (wp_close (wp_doClean h))))))

/-- The callback finds the bytes of the chunk. -/
theorem wp_message {a : Nat} {c : Chunk} {Q : List UInt8 → View → Prop}
    (h : Q c.bytes (.idle (some (a, c)) tr)) :
    wp ibufSpec mayHalt message Q (.idle (some (a, c)) tr) :=
  wp_bind.mpr (wp_dataBuf (wp_bind.mpr (wp_load View.chunk_idle_some h)))

end Rules

/-! ### What a connection has answered -/

/-- The messages of a connection: what each `read` has delivered, without the end of the stream. -/
def messages (tr : Trace) : List (List UInt8) := tr.delivered.filter (· ≠ [])

/-- Whether `send` has taken the replies, in the order of the messages. -/
def sends (log : ConnLog) : List Bool :=
  log.filterMap fun
    | ⟨.doRead, sent⟩ => sent
    | _ => none

/-- The replies to those messages whose replies `send` has taken, in order. -/
def answered (reply : List UInt8 → List UInt8) (messages : List (List UInt8)) (sends : List Bool) :
    List UInt8 :=
  ((messages.zip sends).filter (·.2)).flatMap fun p ↦ reply p.1

variable {reply : List UInt8 → List UInt8} {log : ConnLog} {fd₀ : Int} {l : ConnView}

/-- The end of the stream is no message. -/
theorem messages_read_nil (tr : Trace) : messages (tr.read (.bytes [])) = messages tr := by
  simp [messages, Trace.read, ReadResult.delivers]

theorem messages_read (tr : Trace) {values : List UInt8} (h : values ≠ []) :
    messages (tr.read (.bytes values)) = messages tr ++ [values] := by
  simp [messages, Trace.read, ReadResult.delivers, h]

theorem sends_append (log log' : ConnLog) : sends (log ++ log') = sends log ++ sends log' :=
  List.filterMap_append

/-- One more message is answered, or its reply refused. -/
theorem answered_append {messages : List (List UInt8)} {sends : List Bool}
    (h : messages.length = sends.length) (values : List UInt8) (sent : Bool) :
    answered reply (messages ++ [values]) (sends ++ [sent]) =
      answered reply messages sends ++ if sent then reply values else [] := by
  rw [answered, List.zip_append h, List.filter_append, List.flatMap_append]
  cases sent <;> simp [answered]

/-- Each message that `read` has delivered has had its reply taken or refused, and none was refused
while all replies together fit into the largest chunk. -/
structure Heard (reply : List UInt8 → List UInt8) (tr : Trace) (log : ConnLog) : Prop where
  length : (messages tr).length = (sends log).length
  taken : ((messages tr).flatMap reply).length ≤ 4194304 →
    answered reply (messages tr) (sends log) = (messages tr).flatMap reply

/-- A call that sends nothing. -/
theorem Heard.congr {tr tr' : Trace} {log' : ConnLog} (h : Heard reply tr log)
    (tri : messages tr' = messages tr) (sent : sends log' = sends log) : Heard reply tr' log' where
  length := by rw [tri, sent, h.length]
  taken := by rw [tri, sent]; exact h.taken

/-- One more message is answered, or its reply refused. -/
theorem Heard.read {tr : Trace} (h : Heard reply tr log) {values : List UInt8} {sent : Bool}
    (some : values ≠ [])
    (refused : sent = false →
      4194304 < (answered reply (messages tr) (sends log)).length + (reply values).length) :
    Heard reply (tr.read (.bytes values)) (log ++ [⟨.doRead, Option.some sent⟩]) where
  length := by
    rw [messages_read tr some, sends_append, List.length_append, List.length_append, h.length]
    rfl
  taken hfits := by
    rw [messages_read tr some, List.flatMap_append, List.length_append] at hfits
    have hold := h.taken (by omega)
    rw [messages_read tr some, sends_append, List.flatMap_append]
    refine (answered_append h.length values sent).trans ?_
    rw [hold]
    cases sent with
    | true => simp
    | false =>
      have := refused rfl
      rw [hold] at this
      simp only [List.flatMap_singleton] at hfits
      omega

/-- A reply finds room behind a full chunk. -/
def Moderate (reply : List UInt8 → List UInt8) : Prop :=
  ∀ values, values.length ≤ 4194304 → (reply values).length + 4194304 ≤ intMax

/-- What a connection with descriptor `fd₀` owns between its calls. -/
inductive Served (reply : List UInt8 → List UInt8) (fd₀ : Int) (log : ConnLog) : ConnView → Prop
  | isOpen {b : Option (Nat × Chunk)} {tri tr : Trace} (tidy : ∀ p ∈ b, p.2.Tidy)
      (heard : Heard reply tri log)
      (bytes : tr.accepted ++ View.content b = answered reply (messages tri) (sends log))
      (watch : View.lengthOf b ≠ 0 → (watched tr.calls).2 = true) :
      Served reply fd₀ log ⟨.idle none tri, .idle b tr, fd₀, [], 0⟩
  | closed {tri tr : Trace} {released : List Int}
      (heard : Heard reply tri log)
      (bytes : tr.accepted <+: answered reply (messages tri) (sends log))
      (once : released.filter (· ≠ -1) = [fd₀]) :
      Served reply fd₀ log ⟨.idle none tri, .idle none tr, -1, released, released.length⟩

/-- Only a call that reads a message adds to what has been answered. -/
theorem Served.other {c : ConnCall} {r : c.Ret} (h : Served reply fd₀ log l)
    (hc : sends [⟨c, r⟩] = []) : Served reply fd₀ (log ++ [⟨c, r⟩]) l := by
  have hsame : sends (log ++ [⟨c, r⟩]) = sends log := by
    rw [sends_append, hc, List.append_nil]
  cases h with
  | isOpen tidy heard bytes watch =>
    exact .isOpen tidy (heard.congr rfl hsame) (by rw [hsame, bytes]) watch
  | closed heard bytes once => exact .closed (heard.congr rfl hsame) (by rwa [hsame]) once

/-! ### Calls -/

section Calls

variable {mayHalt : Halt → Prop} {bi b : Option (Nat × Chunk)} {tri tr : Trace}
  {released : List Int}

/-- `do_close` leaves a closed connection. -/
theorem wp_doClose_served (released : List Int) {fd : Int} {Q : Unit → ConnView → Prop}
    (heard : Heard reply tri log)
    (bytes : tr.accepted <+: answered reply (messages tri) (sends log))
    (once : (released ++ [fd]).filter (· ≠ -1) = [fd₀])
    (h : ∀ l, Served reply fd₀ log l → Q () l) :
    wp connSpec mayHalt ConnProg.doClose Q
      ⟨.idle bi tri, .idle b tr, fd, released, released.length⟩ := by
  refine wp_doClose (h _ ?_)
  have hclosed : Served reply fd₀ log ⟨.idle none tri, .idle none (tr.poll (.del fd true)), -1,
      released ++ [fd], (released ++ [fd]).length⟩ := .closed heard bytes once
  simpa using hclosed

/-- The reply to a message that has been read into a chunk of its own is sent or refused. -/
theorem wp_messageCb {a : Nat} {c : Chunk} {values : List UInt8} {Q : Bool → ConnView → Prop}
    (moderate : Moderate reply) (message : c.bytes = values) (fits : values.length ≤ 4194304)
    (tidy : ∀ p ∈ b, p.2.Tidy) (heard : Heard reply tri log)
    (some : values ≠ [])
    (bytes : tr.accepted ++ View.content b = answered reply (messages tri) (sends log))
    (watch : View.lengthOf b ≠ 0 → (watched tr.calls).2 = true)
    (h : ∀ sent l, Served reply fd₀ (log ++ [⟨.doRead, Option.some sent⟩]) l → Q sent l)
    (halts : ∀ h, mayHalt h) :
    wp connSpec mayHalt (ConnProg.messageCb reply) Q
      ⟨.idle (Option.some (a, c)) (tri.read (.bytes values)), .idle b tr, fd₀, [], 0⟩ := by
  refine wp_bind.mpr (wp_ibuf (wp_message (wp_bind.mpr (wp_ibuf (wp_length ?_)))))
  have hall : (c.pop c.length).length = 0 := by
    change int32 (c.length - c.length) = 0
    rw [Int.sub_self]
    rfl
  refine wp_bind.mpr (wp_ibuf (wp_pop (halts _) (fun a' c' hb _ hrest ↦ ?_) fun _ _ _ _ _ ↦ ?_))
  · cases hb
    exact absurd hall hrest
  refine wp_bind.mpr (wp_ibuf (wp_adjust nofun ?_))
  refine wp_bind.mpr (wp_tcFd (wp_obuf ?_))
  have hheld : ((View.content b).length : Int) ≤ 4194304 := by
    cases b with
    | none => decide
    | some p =>
      have hp := tidy p rfl
      have hlen := hp.length_bytes
      have hfits := hp.fits
      have hcapacity := hp.capacity
      change (p.2.bytes.length : Int) ≤ 4194304
      omega
  have hroom := moderate values fits
  have hanswered (sent : Bool) : answered reply (messages (tri.read (.bytes values)))
      (sends (log ++ [⟨.doRead, Option.some sent⟩])) =
        answered reply (messages tri) (sends log) ++ if sent then reply values else [] := by
    rw [messages_read tri some, sends_append]
    exact answered_append heard.length values sent
  refine wp_send (halts _) (Or.inl (halts _)) (fun hrefused ↦ h false _ ?_)
    fun a' c' hres ↦ h true _ ?_
  · refine .isOpen tidy (heard.read some fun _ ↦ ?_) ?_ watch
    · rw [message] at hrefused
      have hexceeds := hrefused.exceeds tidy (by omega) (by omega)
      rw [← bytes, List.length_append]
      omega
    · rw [bytes, hanswered]
      exact (List.append_nil _).symm
  · rw [message] at hres ⊢
    obtain ⟨htidy', hbytes'⟩ := hres.append_tidy tidy (by omega)
    refine .isOpen htidy'.some (heard.read some nofun) ?_ fun _ ↦ ?_
    · rw [Trace.accepted_afterSend, hanswered, ← bytes, List.append_assoc, if_pos rfl, ← hbytes']
      rfl
    · rw [watched_afterSend watch]

/-- What `read` has put into a fresh chunk. -/
theorem bytes_afterRead {need : Int} {c : Chunk} {values : List UInt8}
    (hres : Reserved need none c) (nonneg : 0 ≤ need)
    (le : 0 ≤ (if need = 0 then 4096 else need) →
      values.length ≤ if need = 0 then (4096 : Int) else need) :
    c.length + values.length ≤ c.capacity ∧ values.length ≤ 4194304 ∧
      int32 values.length = values.length ∧ (c.afterRead values).bytes = values := by
  cases hres with
  | fresh hclass hlength hhead =>
    obtain ⟨hlo, hhi⟩ := Mempool.findClass_range hclass
    have hneed := (Mempool.findClass_eq_some hclass).2
    have hle : (values.length : Int) ≤ c.capacity := by
      split at le <;> omega
    have hint : int32 values.length = values.length := int32_of_range (by omega) (by omega)
    refine ⟨by omega, by omega, hint, ?_⟩
    unfold Chunk.afterRead
    rw [hint]
    split
    · have hsum : int32 (c.length + values.length) = c.length + values.length := by
        rw [hlength, Int.zero_add, hint]
      rw [Chunk.bytes_append hhead (by omega) hsum, Chunk.bytes_of_length_zero hlength,
        List.nil_append]
    · have hnone : values = [] := List.length_eq_zero_iff.mp (by omega)
      rw [hnone]
      exact Chunk.bytes_of_length_zero hlength

/-- A readable event of an open connection is answered, or closes it. -/
theorem wp_doRead_open (moderate : Moderate reply) (halts : ∀ h, mayHalt h) (fresh : fd₀ ≠ -1)
    (tidy : ∀ p ∈ b, p.2.Tidy) (heard : Heard reply tri log)
    (bytes : tr.accepted ++ View.content b = answered reply (messages tri) (sends log))
    (watch : View.lengthOf b ≠ 0 → (watched tr.calls).2 = true) :
    wp connSpec mayHalt (ConnProg.doRead reply)
      (fun r l ↦ Served reply fd₀ (log ++ [⟨.doRead, r⟩]) l)
      ⟨.idle none tri, .idle b tr, fd₀, [], 0⟩ := by
  have closes {bi : Option (Nat × Chunk)} {tri' : Trace} (same : messages tri' = messages tri) :
      wp connSpec mayHalt
        (ConnProg.doClose >>= fun _ ↦ (pure none : ConnProg (Option Bool)))
        (fun r l ↦ Served reply fd₀ (log ++ [⟨.doRead, r⟩]) l)
        ⟨.idle bi tri', .idle b tr, fd₀, [], 0⟩ := by
    refine wp_bind.mpr (wp_doClose_served [] (heard.congr same rfl) ?_ ?_ fun _ h ↦
      wp_pure.mpr (h.other rfl))
    · rw [same, ← bytes]
      exact ⟨View.content b, rfl⟩
    · simp [fresh]
  refine wp_bind.mpr (wp_tcFd (wp_bind.mpr (wp_ibuf (wp_readFromFd (halts _) (halts _) ?_ ?_ ?_
    nofun))))
  · exact closes rfl
  · intro a c need _ _ _
    exact closes rfl
  · rintro a c need values hreports hres ⟨-, hle⟩
    obtain ⟨hinside, hfits, hint, hvalues⟩ := bytes_afterRead hres (hreports need rfl) hle
    refine ⟨fun _ ↦ hinside, ?_⟩
    rw [hint]
    have hne : ¬ (values.length : Int) = -1 := by omega
    rw [if_neg hne]
    split
    · next hzero =>
      obtain rfl : values = [] := List.eq_nil_of_length_eq_zero (by omega)
      exact closes (messages_read_nil tri)
    · next hpos =>
      have hsome : values ≠ [] := by
        rintro rfl
        exact hpos rfl
      exact wp_bind.mpr (wp_messageCb moderate hvalues hfits tidy heard hsome bytes watch
        (fun _ _ h ↦ h) halts)

/-- A readable event of a closed connection closes it again. -/
theorem wp_doRead_closed (halts : ∀ h, mayHalt h)
    (heard : Heard reply tri log)
    (bytes : tr.accepted <+: answered reply (messages tri) (sends log))
    (once : released.filter (· ≠ -1) = [fd₀]) :
    wp connSpec mayHalt (ConnProg.doRead reply)
      (fun r l ↦ Served reply fd₀ (log ++ [⟨.doRead, r⟩]) l)
      ⟨.idle none tri, .idle none tr, -1, released, released.length⟩ := by
  have closes {bi : Option (Nat × Chunk)} : wp connSpec mayHalt
      (ConnProg.doClose >>= fun _ ↦ (pure none : ConnProg (Option Bool)))
      (fun r l ↦ Served reply fd₀ (log ++ [⟨.doRead, r⟩]) l)
      ⟨.idle bi tri, .idle none tr, -1, released, released.length⟩ := by
    refine wp_bind.mpr (wp_doClose_served _ heard bytes ?_ fun _ h ↦ wp_pure.mpr (h.other rfl))
    rw [List.filter_append, once]
    rfl
  refine wp_bind.mpr (wp_tcFd (wp_bind.mpr (wp_ibuf (wp_readFromFd (halts _) (halts _) ?_ ?_ ?_
    nofun))))
  · exact closes
  · intro a c need _ _ _
    exact closes
  · rintro a c need values _ _ ⟨hfd, -⟩
    exact absurd rfl hfd

/-- A writable event of an open connection writes what it can, or closes it. -/
theorem wp_doWrite_open (halts : ∀ h, mayHalt h) (fresh : fd₀ ≠ -1) (tidy : ∀ p ∈ b, p.2.Tidy)
    (heard : Heard reply tri log)
    (bytes : tr.accepted ++ View.content b = answered reply (messages tri) (sends log))
    (watch : View.lengthOf b ≠ 0 → (watched tr.calls).2 = true) :
    wp connSpec mayHalt ConnProg.doWrite (fun _ l ↦ Served reply fd₀ log l)
      ⟨.idle none tri, .idle b tr, fd₀, [], 0⟩ := by
  refine wp_bind.mpr (wp_tcFd (wp_bind.mpr (wp_obuf (wp_doWriteLoop
    (fun b tr ↦ (∀ p ∈ b, p.2.Tidy) ∧
      tr.accepted ++ View.content b = answered reply (messages tri) (sends log) ∧
        (View.lengthOf b ≠ 0 → (watched tr.calls).2 = true))
    ⟨tidy, bytes, watch⟩ (Or.inl (halts _)) ?_ ?_))))
  · rintro a c tr n ⟨hc, hsum, hwatch⟩ - hlength hlegal
    obtain ⟨hc', hrest⟩ := (hc _ rfl).afterWrite hlegal
    refine ⟨hc'.some, ?_, fun _ ↦ hwatch hlength⟩
    rw [← hsum]
    change tr.accepted ++ _ ++ _ = _
    rw [List.append_assoc]
    exact congrArg (tr.accepted ++ ·) hrest
  · rintro closes b tr ⟨hb, hsum, hwatch⟩
    cases closes with
    | true =>
      refine wp_doClose_served [] heard ⟨_, hsum⟩ ?_ fun _ h ↦ h
      simp [fresh]
    | false =>
      refine wp_bind.mpr (wp_obuf (wp_length ?_))
      split
      · next hlength =>
        refine wp_bind.mpr (wp_tcFd (wp_obuf (wp_delFromPoller ?_)))
        rw [View.trace_idle b fun tr ↦ tr.poll (.delEvent fd₀ EPOLLOUT true)]
        exact .isOpen hb heard hsum fun hne ↦ absurd hlength hne
      · exact .isOpen hb heard hsum hwatch

/-- A writable event of a closed connection writes nothing. -/
theorem wp_doWrite_closed (halts : ∀ h, mayHalt h)
    (heard : Heard reply tri log)
    (bytes : tr.accepted <+: answered reply (messages tri) (sends log))
    (once : released.filter (· ≠ -1) = [fd₀]) :
    wp connSpec mayHalt ConnProg.doWrite (fun _ l ↦ Served reply fd₀ log l)
      ⟨.idle none tri, .idle none tr, -1, released, released.length⟩ := by
  refine wp_bind.mpr (wp_tcFd (wp_bind.mpr (wp_obuf (wp_doWriteLoop
    (fun b tr' ↦ b = none ∧ tr' = tr) ⟨rfl, rfl⟩ (Or.inl (halts _)) ?_ ?_))))
  · rintro a c tr' n ⟨hb, -⟩
    cases hb
  · rintro closes _ _ ⟨rfl, rfl⟩
    cases closes with
    | true =>
      refine wp_doClose_served _ heard bytes ?_ fun _ h ↦ h
      rw [List.filter_append, once]
      rfl
    | false =>
      refine wp_bind.mpr (wp_obuf (wp_length (wp_bind.mpr (wp_tcFd (wp_obuf
        (wp_delFromPoller ?_))))))
      rw [View.trace_idle none fun tr ↦ tr.poll (.delEvent (-1) EPOLLOUT true)]
      exact .closed heard bytes once

/-- The connection is registered for reading. -/
theorem wp_addTask_served {l : ConnView} (h : Served reply fd₀ log l) :
    wp connSpec mayHalt ConnProg.addTask (fun _ l ↦ Served reply fd₀ log l) l := by
  refine wp_bind.mpr ?_
  cases h with
  | isOpen tidy heard bytes watch =>
    refine wp_tcFd (wp_obuf (wp_addTask (.isOpen tidy heard bytes fun hne ↦ ?_)))
    rw [Trace.poll, watched_append]
    simp [watchedAfter, watch hne]
  | closed heard bytes once => exact wp_tcFd (wp_obuf (wp_addTask (.closed heard bytes once)))

/-- The time-out or the user closes the connection. -/
theorem wp_activeClose {l : ConnView} (fresh : fd₀ ≠ -1) (h : Served reply fd₀ log l) :
    wp connSpec mayHalt ConnProg.doClose (fun _ l ↦ Served reply fd₀ log l) l := by
  cases h with
  | isOpen tidy heard bytes watch =>
    refine wp_doClose_served [] heard ⟨_, bytes⟩ ?_ fun _ h ↦ h
    simp [fresh]
  | closed heard bytes once =>
    refine wp_doClose_served _ heard bytes ?_ fun _ h ↦ h
    rw [List.filter_append, once]
    rfl

/-- Every call leaves the connection served. -/
theorem wp_served {l : ConnView} (moderate : Moderate reply) (halts : ∀ h, mayHalt h)
    (fresh : fd₀ ≠ -1) (h : Served reply fd₀ log l) (c : ConnCall) :
    wp connSpec mayHalt (c.body reply) (fun r l ↦ Served reply fd₀ (log ++ [⟨c, r⟩]) l) l := by
  cases c with
  | addTask => exact wp_mono (wp_addTask_served h) fun _ _ h ↦ h.other rfl
  | doRead =>
    cases h with
    | isOpen tidy heard bytes watch =>
      exact wp_doRead_open moderate halts fresh tidy heard bytes watch
    | closed heard bytes once => exact wp_doRead_closed halts heard bytes once
  | doWrite =>
    refine wp_mono (Q := fun _ l ↦ Served reply fd₀ log l) ?_ fun _ _ h ↦ h.other rfl
    cases h with
    | isOpen tidy heard bytes watch => exact wp_doWrite_open halts fresh tidy heard bytes watch
    | closed heard bytes once => exact wp_doWrite_closed halts heard bytes once
  | activeClose => exact wp_mono (wp_activeClose fresh h) fun _ _ h ↦ h.other rfl

end Calls

/-! ### All connections -/

/-- What the buffers own. -/
def bufferViews (ls : Nat → ConnView) : BufferId → View
  | .input n => (ls n).ibuf
  | .output n => (ls n).obuf

/-- What the connections own makes up the world. -/
structure Coherent (ls : Nat → ConnView) (w : ConnWorld) : Prop where
  split : Split (bufferViews ls) w.bufs
  tcFd : ∀ n, w.tcFd n = (ls n).tcFd
  released : ∀ n, w.released n = (ls n).released
  cleaned : ∀ n, w.cleaned n = (ls n).cleaned

variable {ls : Nat → ConnView} {w w' : ConnWorld} {n : Nat}

theorem bufferViews_ibuf (v : View) :
    bufferViews (Function.update ls n { ls n with ibuf := v }) =
      Function.update (bufferViews ls) (.input n) v := by
  funext i
  cases i with
  | input m =>
    by_cases hm : m = n
    · simp [bufferViews, hm]
    · simp [bufferViews, hm]
  | output m =>
    by_cases hm : m = n
    · simp [bufferViews, hm]
    · simp [bufferViews, hm]

theorem bufferViews_obuf (v : View) :
    bufferViews (Function.update ls n { ls n with obuf := v }) =
      Function.update (bufferViews ls) (.output n) v := by
  funext i
  cases i with
  | input m =>
    by_cases hm : m = n
    · simp [bufferViews, hm]
    · simp [bufferViews, hm]
  | output m =>
    by_cases hm : m = n
    · simp [bufferViews, hm]
    · simp [bufferViews, hm]

/-- A field of all connections, after that of one has changed. -/
theorem field_update {α : Type} {f : Nat → α} {g : ConnView → α} (h : ∀ m, f m = g (ls m))
    (l' : ConnView) (m : Nat) : Function.update f n (g l') m = g (Function.update ls n l' m) := by
  by_cases hm : m = n
  · rw [hm, Function.update_self, Function.update_self]
  · rw [Function.update_of_ne hm, Function.update_of_ne hm, h]

/-- A field of all connections, after something else of one has changed. -/
theorem field_keep {α : Type} {f : Nat → α} {g : ConnView → α} (h : ∀ m, f m = g (ls m))
    {l' : ConnView} (same : g l' = g (ls n)) (m : Nat) : f m = g (Function.update ls n l' m) := by
  rw [← field_update h l' m, same, ← h, Function.update_eq_self]

/-- The buffers of a connection change. -/
theorem Coherent.buffers (h : Coherent ls w) {l' : ConnView} {bufs : World}
    (split : Split (bufferViews (Function.update ls n l')) bufs) (tcFd : l'.tcFd = (ls n).tcFd)
    (released : l'.released = (ls n).released) (cleaned : l'.cleaned = (ls n).cleaned) :
    Coherent (Function.update ls n l') { w with bufs := bufs } where
  split := split
  tcFd := field_keep h.tcFd tcFd
  released := field_keep h.released released
  cleaned := field_keep h.cleaned cleaned

/-- What a connection owns beside its buffers changes. -/
theorem Coherent.own (h : Coherent ls w) (l' : ConnView) (ibuf : l'.ibuf = (ls n).ibuf)
    (obuf : l'.obuf = (ls n).obuf) :
    Coherent (Function.update ls n l')
      ⟨w.bufs, Function.update w.tcFd n l'.tcFd, Function.update w.released n l'.released,
        Function.update w.cleaned n l'.cleaned⟩ where
  split := by
    have hsame : bufferViews (Function.update ls n l') = bufferViews ls := by
      funext i
      cases i with
      | input m => exact (field_keep (f := fun m ↦ (ls m).ibuf) (fun _ ↦ rfl) ibuf m).symm
      | output m => exact (field_keep (f := fun m ↦ (ls m).obuf) (fun _ ↦ rfl) obuf m).symm
    rw [hsame]
    exact h.split
  tcFd := field_update h.tcFd l'
  released := field_update h.released l'
  cleaned := field_update h.cleaned l'

/-- An effect that answers respects what the connections own. -/
theorem Coherent.value (h : Coherent ls w) {e : ConnEffect} {inp : Input} {r : e.Result}
    (ok : connSpec.ok e (ls n)) (hexec : w.exec n e inp = some (.value r w')) :
    ∃ l', connSpec.act e inp (ls n) (.value r l') ∧ Coherent (Function.update ls n l') w' := by
  have keep : Coherent (Function.update ls n (ls n)) w := by rwa [Function.update_eq_self]
  have htcFd : Function.update w.tcFd n (ls n).tcFd = w.tcFd := by
    rw [← h.tcFd, Function.update_eq_self]
  have hreleased : Function.update w.released n (ls n).released = w.released := by
    rw [← h.released, Function.update_eq_self]
  have hcleaned : Function.update w.cleaned n (ls n).cleaned = w.cleaned := by
    rw [← h.cleaned, Function.update_eq_self]
  cases e with
  | ibuf e =>
    obtain ⟨out, hout, hmap⟩ := Option.map_eq_some_iff.mp hexec
    cases out with
    | halt hr => cases hmap
    | value r' bufs =>
      cases hmap
      obtain ⟨v, hact, hsplit⟩ := h.split.value (i := .input n) ok.1 hout
      refine ⟨_, ⟨v, ⟨hact, answers_of_exec hout⟩, rfl⟩, h.buffers ?_ rfl rfl rfl⟩
      rwa [bufferViews_ibuf]
  | obuf e =>
    obtain ⟨out, hout, hmap⟩ := Option.map_eq_some_iff.mp hexec
    cases out with
    | halt hr => cases hmap
    | value r' bufs =>
      cases hmap
      obtain ⟨v, hact, hsplit⟩ := h.split.value (i := .output n) ok hout
      refine ⟨_, ⟨v, hact, rfl⟩, h.buffers ?_ rfl rfl rfl⟩
      rwa [bufferViews_obuf]
  | tcFd =>
    obtain ⟨rfl, rfl⟩ := Outcome.value.inj (Option.some.inj hexec)
    exact ⟨ls n, by rw [h.tcFd]; rfl, keep⟩
  | setTcFd fd =>
    obtain ⟨-, rfl⟩ := Outcome.value.inj (Option.some.inj hexec)
    have hown := h.own (n := n) { ls n with tcFd := fd } rfl rfl
    rw [hreleased, hcleaned] at hown
    exact ⟨_, rfl, hown⟩
  | delFd fd =>
    obtain ⟨-, rfl⟩ := Outcome.value.inj (Option.some.inj hexec)
    refine ⟨_, rfl, h.buffers ?_ rfl rfl rfl⟩
    rw [bufferViews_obuf]
    exact h.split.record (i := .output n) fun tr ↦ tr.poll (.del fd true)
  | close fd =>
    obtain ⟨-, rfl⟩ := Outcome.value.inj (Option.some.inj hexec)
    have hown := h.own (n := n) { ls n with released := (ls n).released ++ [fd] } rfl rfl
    rw [htcFd, hcleaned, ← h.released] at hown
    exact ⟨_, rfl, by rw [← h.released]; exact hown⟩
  | doClean =>
    obtain ⟨-, rfl⟩ := Outcome.value.inj (Option.some.inj hexec)
    have hown := h.own (n := n) { ls n with cleaned := (ls n).cleaned + 1 } rfl rfl
    rw [htcFd, hreleased, ← h.cleaned] at hown
    exact ⟨_, rfl, by rw [← h.cleaned]; exact hown⟩

/-- An effect that ends the process does so for its own buffer's reasons. -/
theorem Coherent.halt (h : Coherent ls w) {e : ConnEffect} {inp : Input} {hr : Halt}
    (ok : connSpec.ok e (ls n)) (hexec : w.exec n e inp = some (.halt hr)) :
    connSpec.act e inp (ls n) (.halt hr) := by
  cases e with
  | ibuf e =>
    obtain ⟨out, hout, hmap⟩ := Option.map_eq_some_iff.mp hexec
    cases out with
    | value r' bufs => cases hmap
    | halt hr' =>
      cases hmap
      refine ⟨h.split.halt (i := .input n) ok.1 hout, ?_⟩
      cases e with
      | fionread fd => cases inp <;> cases hout
      | _ => trivial
  | obuf e =>
    obtain ⟨out, hout, hmap⟩ := Option.map_eq_some_iff.mp hexec
    cases out with
    | value r' bufs => cases hmap
    | halt hr' =>
      cases hmap
      exact h.split.halt (i := .output n) ok hout
  | _ => cases hexec

/-- Connections that have not been called own empty buffers and their descriptors. -/
theorem coherent_init (fds : Nat → Int) (block : Nat → Int → UInt8) :
    Coherent (fun n ↦ ⟨.idle none ⟨[], [], []⟩, .idle none ⟨[], [], []⟩, fds n, [], 0⟩)
      (.init fds block) where
  split := by
    have hviews : bufferViews (fun n ↦
        ⟨.idle none ⟨[], [], []⟩, .idle none ⟨[], [], []⟩, fds n, [], 0⟩) =
          fun _ ↦ View.idle none ⟨[], [], []⟩ := by
      funext i
      cases i <;> rfl
    rw [hviews]
    exact Split.init block
  tcFd _ := rfl
  released _ := rfl
  cleaned _ := rfl

/-- The proof for all connections of a server whose replies are moderate. -/
def connLogic (moderate : Moderate reply) (fds : Nat → Int) (fresh : ∀ n, fds n ≠ -1) :
    ObjectLogic (connections reply) KernelKeeps ConnView where
  spec _ := connSpec
  coh := Coherent
  inv n log l := Served reply (fds n) log l
  mayHalt _ _ := True
  legal := by
    intro s ls n c e k inp _ hth hadmits
    have hpromised : Promised e inp := by simpa only [KernelKeeps, hth] using hadmits
    exact hpromised
  value hcoh hok _ hexec := hcoh.value hok hexec
  halt hcoh hok _ hexec := hcoh.halt hok hexec
  call := by
    intro s ls n c _ hserved _ _
    exact wp_served moderate (fun _ ↦ trivial) (fresh n) hserved c

/-- What can be said of connection `n` between its calls. -/
structure RepliesInOrder (reply : List UInt8 → List UInt8) (fds : Nat → Int) (s : ConnState)
    (n : Nat) : Prop where
  /-- For each message that `read` has delivered, `send` has once taken or refused the reply. -/
  heard : (messages (s.mem.bufs.trace (.input n))).length = (sends (s.log n)).length
  /-- None is refused while the replies together are at most 4 MiB long. -/
  taken : ((messages (s.mem.bufs.trace (.input n))).flatMap reply).length ≤ 4194304 →
    answered reply (messages (s.mem.bufs.trace (.input n))) (sends (s.log n)) =
      (messages (s.mem.bufs.trace (.input n))).flatMap reply
  /-- What has been written is a beginning of the replies that were taken. -/
  accepted : (s.mem.bufs.trace (.output n)).accepted <+:
    answered reply (messages (s.mem.bufs.trace (.input n))) (sends (s.log n))
  /-- While it is open, the rest is in `tc_obuf` and waits for a write event. -/
  held : s.mem.tcFd n ≠ -1 →
    (s.mem.bufs.trace (.output n)).accepted ++ s.mem.bufs.bytes (.output n) =
      answered reply (messages (s.mem.bufs.trace (.input n))) (sends (s.log n)) ∧
    (s.mem.bufs.bytes (.output n) ≠ [] →
      (watched (s.mem.bufs.trace (.output n)).calls).2 = true)
  /-- No byte that was read waits for an answer, and no chunk for another. -/
  ibuf : s.mem.bufs.dataBuf (.input n) = none
  obuf : s.mem.tcFd n = -1 → s.mem.bufs.dataBuf (.output n) = none
  /-- Its descriptor has been closed once or is its own. -/
  once : (s.mem.released n).filter (· ≠ -1) = if s.mem.tcFd n = -1 then [fds n] else []
  /-- Each `do_close` has cleaned it from the list. -/
  cleaned : s.mem.cleaned n = (s.mem.released n).length

/-- The echo is moderate. -/
theorem moderate_echoReply : Moderate echoReply := by
  intro values h
  change (values.length : Int) + 4194304 ≤ intMax
  have hmax : intMax = 2 ^ 31 - 1 := rfl
  omega

/-- So is the page of the other server. -/
theorem moderate_httpReply : Moderate httpReply := by
  intro values _
  change ((httpReply []).length : Int) + 4194304 ≤ intMax
  decide +kernel

section Run

variable {fds : Nat → Int} {block : Nat → Int → UInt8} {s : ConnState}

/-- In every run in which the kernel keeps its promises, however the calls and statements of the
connections interleave and whatever becomes of the pool, each connection has written the replies to
what it has read, in order and without those that `send` has refused, and holds the rest while it
is open. -/
theorem replies_in_order (moderate : Moderate reply) (fresh : ∀ n, fds n ≠ -1)
    (h : ReachBy (connections reply).step KernelKeeps (ConnState.init fds block) s)
    (idle : s.thread n = .idle) : RepliesInOrder reply fds s n := by
  obtain ⟨ls, hls⟩ := (connLogic moderate fds fresh).holds_of_reachBy h
    ⟨_, coherent_init fds block, fun _ ↦ .isOpen nofun ⟨rfl, fun _ ↦ rfl⟩ rfl
      fun hne ↦ absurd rfl hne, nofun⟩
  have hserved : Served reply (fds n) (s.log n) (ls n) := hls.idle idle
  obtain ⟨hsplit, htcFd, hreleased, hcleaned⟩ : Coherent ls s.mem := hls.coh
  generalize hl : ls n = l at hserved
  have hibuf : bufferViews ls (.input n) = l.ibuf := congrArg ConnView.ibuf hl
  have hobuf : bufferViews ls (.output n) = l.obuf := congrArg ConnView.obuf hl
  have hfd : s.mem.tcFd n = l.tcFd := by rw [htcFd, hl]
  have hrel : s.mem.released n = l.released := by rw [hreleased, hl]
  have hclean : s.mem.cleaned n = l.cleaned := by rw [hcleaned, hl]
  cases hserved with
  | @isOpen b tri tr tidy heard bytes watch =>
    have hidle : bufferViews ls (.input n) = .idle none tri := hibuf
    obtain ⟨hlength, htaken⟩ := heard
    rw [← hsplit.trace_eq hidle] at hlength htaken
    rw [← hsplit.bytes_eq hobuf, ← hsplit.trace_eq hobuf, ← hsplit.trace_eq hidle] at bytes
    rw [← hsplit.trace_eq hobuf] at watch
    refine ⟨hlength, htaken, ⟨_, bytes⟩, fun _ ↦ ⟨bytes, fun hne ↦ watch fun hlength ↦ hne ?_⟩, ?_,
      fun hclosed ↦ ?_, ?_, ?_⟩
    · rw [hsplit.bytes_eq hobuf]
      cases b with
      | none => rfl
      | some p => exact Chunk.bytes_of_length_zero hlength
    · rw [hsplit.dataBuf, hibuf]
      rfl
    · exact absurd (hfd.symm.trans hclosed) (fresh n)
    · rw [hfd, hrel, if_neg (fresh n)]
      rfl
    · rw [hclean, hrel]
      rfl
  | @closed tri tr released heard bytes once =>
    have hidle : bufferViews ls (.input n) = .idle none tri := hibuf
    have hidle' : bufferViews ls (.output n) = .idle none tr := hobuf
    obtain ⟨hlength, htaken⟩ := heard
    rw [← hsplit.trace_eq hidle] at hlength htaken
    rw [← hsplit.trace_eq hidle', ← hsplit.trace_eq hidle] at bytes
    refine ⟨hlength, htaken, bytes, fun hopen ↦ absurd hfd hopen, ?_, fun _ ↦ ?_, ?_, ?_⟩
    · rw [hsplit.dataBuf, hibuf]
      rfl
    · rw [hsplit.dataBuf, hobuf]
      rfl
    · rw [hfd, hrel, if_pos rfl]
      exact once
    · rw [hclean, hrel]

/-- The next statement of connection 0, where the kernel only has memory to give. -/
def goOn : ConnAction := .perform 0 (.alloc true fun _ ↦ 9)

/-- Connection 0 reads three bytes into its buffer. -/
def readThree : List ConnAction :=
  .flatten [[.start 0 .doRead, goOn, .perform 0 (.fionread (some 3))], .replicate 4 goOn,
    [.loop 0, .perform 0 (.read (.bytes [1, 2, 3]))]]

/-- They are answered, and two of them are written. -/
def echoTwo : List ConnAction :=
  readThree ++ .flatten [.replicate 24 goOn, [.finish 0, .start 0 .doWrite, goOn, .loop 0],
    .replicate 5 goOn, [.loop 0, .perform 0 (.write (.count 2)), goOn, goOn, .loop 0],
    .replicate 5 goOn, [.loop 0, .perform 0 (.write .eagain), goOn, goOn, .finish 0]]

/-- Echoed bytes are in order. -/
theorem echo_in_order :
    ∃ s, run (connections echoReply).step (ConnState.init (fun n ↦ 7 + n) fun _ _ ↦ 9) echoTwo =
      some s ∧ RepliesInOrder echoReply (fun n ↦ 7 + n) s 0 := by
  have hrun : (run (connections echoReply).step (ConnState.init (fun n ↦ 7 + n) fun _ _ ↦ 9)
      echoTwo).isSome := by
    decide +kernel
  have hidle : ∀ t ∈ run (connections echoReply).step
      (ConnState.init (fun n ↦ 7 + n) fun _ _ ↦ 9) echoTwo, (t.thread 0).isIdle = true := by
    decide +kernel
  obtain ⟨s, hs⟩ := Option.isSome_iff_exists.mp hrun
  have hreach : ReachBy (connections echoReply).step KernelKeeps
      (ConnState.init (fun n ↦ 7 + n) fun _ _ ↦ 9) s :=
    reachBy_of_run hs (by decide +kernel)
  exact ⟨s, hs, replies_in_order moderate_echoReply (fun n ↦ by omega) hreach
    (Thread.eq_idle (hidle s hs))⟩

/-- In such a run no store of a `tc_ibuf` reaches behind its chunk: between two messages it is
empty, so that also the 4096 bytes that are asked for after a report of 0 have room. -/
theorem replies_read_inside (moderate : Moderate reply) (fresh : ∀ n, fds n ≠ -1)
    (h : ReachBy (connections reply).step KernelKeeps (ConnState.init fds block) s) {c : ConnCall}
    {a : Nat} {f : Chunk → Chunk} {k : Unit → ConnProg c.Ret}
    (at_ : s.thread n = .running c (.op (.ibuf (.modify a f)) k)) :
    (s.mem.bufs.pool.chunks a).StoresInside f := by
  obtain ⟨ls, hls⟩ := (connLogic moderate fds fresh).holds_of_reachBy h
    ⟨_, coherent_init fds block, fun _ ↦ .isOpen nofun ⟨rfl, fun _ ↦ rfl⟩ rfl
      fun hne ↦ absurd rfl hne, nofun⟩
  have hguar := hls.guarantee n
  rw [at_] at hguar
  obtain ⟨⟨c', hc', -⟩, hinside⟩ : ibufSpec.ok (.modify a f) (ls n).ibuf := hguar.1
  have hcoh : Coherent ls s.mem := hls.coh
  rw [hcoh.split.chunk (.input n) a c' hc']
  exact hinside c' hc'

/-- The thread is about to store into a chunk of its `tc_ibuf`. -/
def atInputStore : Thread ConnEffect ConnEffect.Result ConnCall ConnCall.Ret → Bool
  | .running _ (.op (.ibuf (.modify _ _)) _) => true
  | _ => false

/-- The three bytes of `readThree` are stored inside. -/
theorem echo_reads_inside :
    ∃ s, run (connections echoReply).step (ConnState.init (fun n ↦ 7 + n) fun _ _ ↦ 9) readThree =
      some s ∧ ∃ (c : ConnCall) (a : Nat) (f : Chunk → Chunk) (k : Unit → ConnProg c.Ret),
        s.thread 0 = .running c (.op (.ibuf (.modify a f)) k) ∧
          (s.mem.bufs.pool.chunks a).StoresInside f := by
  have hrun : (run (connections echoReply).step (ConnState.init (fun n ↦ 7 + n) fun _ _ ↦ 9)
      readThree).isSome := by
    decide +kernel
  have hat : ∀ t ∈ run (connections echoReply).step
      (ConnState.init (fun n ↦ 7 + n) fun _ _ ↦ 9) readThree, atInputStore (t.thread 0) = true := by
    decide +kernel
  obtain ⟨s, hs⟩ := Option.isSome_iff_exists.mp hrun
  have hreach : ReachBy (connections echoReply).step KernelKeeps
      (ConnState.init (fun n ↦ 7 + n) fun _ _ ↦ 9) s :=
    reachBy_of_run hs (by decide +kernel)
  have hats := hat s hs
  unfold atInputStore at hats
  split at hats
  · next c a f k hth =>
    exact ⟨s, hs, c, a, f, k, hth,
      replies_read_inside moderate_echoReply (fun n ↦ by omega) hreach hth⟩
  · cases hats

end Run

end ConcurrentServer.Net
