import ConcurrentServer.Memory.BufferLogic

/-!
# What the operations of a buffer do

One rule for each effect and one specification for each operation of
`src/memory/data_buf.cpp`, over what the buffer owns. They hold whatever the other buffers do.
-/

namespace ConcurrentServer.Memory
open ConcurrentServer.Base ConcurrentServer.Net

/-! ### What a specification can demand -/

namespace View

/-- Before an effect: a change of a chunk stores nothing behind it. -/
def Inside : Effect → View → Prop
  | .modify a f, l => ∀ c, l.chunk a = some c → c.StoresInside f
  | _, _ => True

/-- A specification by which effects do no more than `View.Act` says and may be performed where
`View.Ok` holds, under `strict` only where stores stay inside; `reports` is what `FIONREAD` can
answer. -/
class Narrows (spec : LocalSpec Effect Effect.Result Input Halt View) (strict : outParam Prop)
    (reports : outParam (Option Int → View → Prop)) : Prop where
  ok : ∀ {e l}, Ok e l → (strict → Inside e l) → spec.ok e l
  act : ∀ {e inp l out}, spec.act e inp l out → Act e inp l out
  reports : ∀ {fd inp l result l'}, spec.legal (.fionread fd) inp l →
    spec.act (.fionread fd) inp l (.value result l') → reports result l

instance (legal : Effect → Input → View → Prop) :
    Narrows (spec legal) False fun _ _ ↦ True where
  ok hok _ := hok
  act hact := hact
  reports _ _ := trivial

end View

section Rules

variable {spec : LocalSpec Effect Effect.Result Input Halt View} {strict : Prop}
  {reports : Option Int → View → Prop} [narrows : View.Narrows spec strict reports]
  {mayHalt : Halt → Prop} {l : View}

include narrows

/-- One effect, by what it may do. -/
theorem wp_act {e : Effect} {Q : e.Result → View → Prop} (ok : View.Ok e l)
    (inside : strict → View.Inside e l)
    (value : ∀ inp r l', spec.legal e inp l → View.Act e inp l (.value r l') → Q r l')
    (halt : ∀ inp h, spec.legal e inp l → View.Act e inp l (.halt h) → mayHalt h) :
    wp spec mayHalt (Prog.perform e : BufProg e.Result) Q l :=
  wp_perform (View.Narrows.ok ok inside)
    (fun inp r l' hlegal hact ↦ value inp r l' hlegal (View.Narrows.act hact))
    fun inp h hlegal hact ↦ halt inp h hlegal (View.Narrows.act hact)

theorem wp_dataBuf {Q : Option Nat → View → Prop} (h : Q l.dataBuf l) :
    wp spec mayHalt BufProg.dataBuf Q l :=
  wp_act trivial (fun _ ↦ trivial) (fun _ _ _ _ hact ↦ by cases hact; exact h) nofun

theorem wp_setDataBuf {p : Option Nat} {Q : Unit → View → Prop}
    (h : Q () { l with dataBuf := p }) :
    wp spec mayHalt (BufProg.setDataBuf p) Q l :=
  wp_act trivial (fun _ ↦ trivial) (fun _ _ _ _ hact ↦ by cases hact; exact h) nofun

theorem wp_load {a : Nat} {c : Chunk} {Q : Chunk → View → Prop} (hc : l.chunk a = some c)
    (h : Q c l) : wp spec mayHalt (BufProg.load a) Q l := by
  refine wp_act (Option.isSome_iff_exists.mpr ⟨c, hc⟩) (fun _ ↦ trivial) ?_ ?_
  · rintro _ _ _ _ ⟨c', hc', he⟩
    obtain rfl := Option.some.inj (hc.symm.trans hc')
    cases he
    exact h
  · rintro _ _ _ ⟨c', -, he⟩
    cases he

theorem wp_modify {a : Nat} {c : Chunk} {f : Chunk → Chunk} {Q : Unit → View → Prop}
    (hc : l.chunk a = some c) (capacity : (f c).capacity = c.capacity)
    (inside : strict → c.StoresInside f) (h : Q () (l.setChunk a (f c))) :
    wp spec mayHalt (BufProg.modify a f) Q l := by
  refine wp_act ⟨c, hc, capacity⟩ (fun hs c' hc' ↦ ?_) ?_ ?_
  · obtain rfl := Option.some.inj (hc.symm.trans hc')
    exact inside hs
  · rintro _ _ _ _ ⟨c', hc', he⟩
    obtain rfl := Option.some.inj (hc.symm.trans hc')
    cases he
    exact h
  · rintro _ _ _ ⟨c', -, he⟩
    cases he

theorem wp_allocChunk {n : Int} {Q : Option Nat → View → Prop} (exits : mayHalt .exit)
    (null : Mempool.findClass n = none → Q none l)
    (chunk : ∀ (a : Nat) (c : Chunk), l.chunk a = none →
      Mempool.findClass n = some c.capacity → c.length = 0 → c.head = 0 →
        Q (some a) (l.setChunk a c)) :
    wp spec mayHalt (BufProg.allocChunk n) Q l := by
  refine wp_act trivial (fun _ ↦ trivial) ?_ ?_
  · rintro _ _ _ _ (he | ⟨hclass, he⟩ | ⟨a, c, ha, hclass, hlen, hhead, he⟩)
    · cases he
    · cases he
      exact null hclass
    · cases he
      exact chunk a c ha hclass hlen hhead
  · rintro _ _ _ (he | ⟨-, he⟩ | ⟨_, _, -, -, -, -, he⟩)
    · cases he
      exact exits
    · cases he
    · cases he

theorem wp_retrieve {a : Nat} {c : Chunk} {Q : Unit → View → Prop} (hc : l.chunk a = some c)
    (h : Q () (l.setChunk a none)) :
    wp spec mayHalt (BufProg.retrieve a) Q l :=
  wp_act (Option.isSome_iff_exists.mpr ⟨c, hc⟩) (fun _ ↦ trivial)
    (fun _ _ _ _ hact ↦ by cases hact; exact h) nofun

theorem wp_assert {b : Bool} {Q : Unit → View → Prop} (fails : b = false → mayHalt .assertion)
    (h : b = true → Q () l) : wp spec mayHalt (BufProg.assert b) Q l := by
  refine wp_act trivial (fun _ ↦ trivial) ?_ ?_
  · intro _ _ _ _ hact
    cases b with
    | false => cases hact
    | true => cases hact; exact h rfl
  · intro _ _ _ hact
    cases b with
    | false => cases hact; exact fails rfl
    | true => cases hact

theorem wp_fionread {fd : Int} {Q : Option Int → View → Prop}
    (h : ∀ result, reports result l → Q result l) :
    wp spec mayHalt (BufProg.fionread fd) Q l := by
  refine wp_perform (View.Narrows.ok trivial fun _ ↦ trivial) ?_ ?_
  · intro inp result l' hlegal hact
    obtain ⟨_, he⟩ := View.Narrows.act hact
    cases he
    exact h _ (View.Narrows.reports hlegal hact)
  · intro inp h _ hact
    obtain ⟨_, he⟩ := View.Narrows.act hact
    cases he

theorem wp_read {fd n : Int} {Q : ReadResult → View → Prop}
    (h : ∀ result, spec.legal (.read fd n) (.read result) l →
      Q result { l with trace := l.trace.read result }) :
    wp spec mayHalt (BufProg.read fd n) Q l := by
  refine wp_act trivial (fun _ ↦ trivial) ?_ ?_
  · rintro _ _ _ hlegal ⟨result, rfl, he⟩
    cases he
    exact h _ hlegal
  · rintro _ _ _ ⟨result, -, he⟩
    cases he

theorem wp_write {fd : Int} {values : List UInt8} {Q : WriteResult → View → Prop}
    (h : ∀ result, spec.legal (.write fd values) (.write result) l →
      Q result { l with trace := l.trace.write (result.taken values) }) :
    wp spec mayHalt (BufProg.write fd values) Q l := by
  refine wp_act trivial (fun _ ↦ trivial) ?_ ?_
  · rintro _ _ _ hlegal ⟨result, rfl, he⟩
    cases he
    exact h _ hlegal
  · rintro _ _ _ ⟨result, -, he⟩
    cases he

theorem wp_addToPoller {fd : Int} {event : Mask} {cb : PollCallback} {Q : Unit → View → Prop}
    (h : Q () { l with trace := l.trace.poll (.add fd event cb true) }) :
    wp spec mayHalt (BufProg.addToPoller fd event cb) Q l :=
  wp_act trivial (fun _ ↦ trivial) (fun _ _ _ _ hact ↦ by cases hact; exact h) nofun

theorem wp_delFromPoller {fd : Int} {event : Mask} {Q : Unit → View → Prop}
    (h : Q () { l with trace := l.trace.poll (.delEvent fd event true) }) :
    wp spec mayHalt (BufProg.delFromPoller fd event) Q l :=
  wp_act trivial (fun _ ↦ trivial) (fun _ _ _ _ hact ↦ by cases hact; exact h) nofun

end Rules

/-! ### Idle parts -/

namespace View

variable {a : Nat} {c : Chunk} {tr : Trace}

@[simp] theorem dataBuf_idle_some : (idle (some (a, c)) tr).dataBuf = some a := rfl

@[simp] theorem chunk_idle_some : (idle (some (a, c)) tr).chunk a = some c := by
  simp [idle]

theorem setChunk_setChunk (l : View) (a : Nat) (c c' : Option Chunk) :
    (l.setChunk a c).setChunk a c' = l.setChunk a c' := by
  simp [setChunk]

/-- The held chunk changes. -/
theorem setChunk_idle_some (c' : Chunk) :
    (idle (some (a, c)) tr).setChunk a (some c') = idle (some (a, c')) tr := by
  simp [setChunk, idle]

/-- The held chunk is given back and forgotten. -/
theorem drop_idle_some :
    { (idle (some (a, c)) tr).setChunk a none with dataBuf := none } =
      idle none tr := by
  simp [setChunk, idle]

/-- One chunk is exchanged for another. -/
theorem swap_idle_some {b : Nat} {c' : Chunk} (hab : b ≠ a) :
    { ((idle (some (a, c)) tr).setChunk b (some c')).setChunk a none with
      dataBuf := some b } = idle (some (b, c')) tr := by
  simp only [setChunk, idle, View.mk.injEq, and_true]
  rw [Function.update_comm hab, Function.update_idem]
  simp

/-- More has gone in or out. -/
theorem trace_idle (b : Option (Nat × Chunk)) (f : Trace → Trace) :
    { idle b tr with trace := f (idle b tr).trace } = idle b (f tr) := by
  cases b <;> rfl

/-- The bytes that a buffer holds between its calls. -/
def content : Option (Nat × Chunk) → List UInt8
  | none => []
  | some (_, c) => c.bytes

/-- What `length()` tells of it. -/
def lengthOf (b : Option (Nat × Chunk)) : Int := (b.map fun p ↦ p.2.length).getD 0

end View

/-- The call of the epoller with which a `send` into a buffer of this length ends. -/
def Trace.afterSend (tr : Trace) (fd length : Int) : Trace :=
  if length = 0 then tr.poll (.add fd EPOLLOUT (some .doWrite) true) else tr

/-- The call of the epoller with which a `do_write` that leaves this length ends. -/
def Trace.afterDoWrite (tr : Trace) (fd length : Int) : Trace :=
  if length = 0 then tr.poll (.delEvent fd EPOLLOUT true) else tr

@[simp] theorem Trace.accepted_afterSend (tr : Trace) (fd length : Int) :
    (tr.afterSend fd length).accepted = tr.accepted := by
  unfold afterSend
  split <;> rfl

@[simp] theorem Trace.accepted_afterDoWrite (tr : Trace) (fd length : Int) :
    (tr.afterDoWrite fd length).accepted = tr.accepted := by
  unfold afterDoWrite
  split <;> rfl

/-- The classes begin at 4 KiB and end at 4 MiB. -/
theorem Mempool.findClass_range {n cap : Int} (h : findClass n = some cap) :
    4096 ≤ cap ∧ cap ≤ 4194304 := by
  have hmem := (findClass_eq_some h).1
  simp only [memCaps, List.mem_cons, List.not_mem_nil, or_false] at hmem
  omega

/-! ### Operations -/

section Operations

variable {spec : LocalSpec Effect Effect.Result Input Halt View} {strict : Prop}
  {reports : Option Int → View → Prop} [narrows : View.Narrows spec strict reports]
  {mayHalt : Halt → Prop} {b : Option (Nat × Chunk)} {tr : Trace}

include narrows

theorem wp_chunkPtr {Q : Nat → View → Prop} {a : Nat} {c : Chunk}
    (h : Q a (.idle (some (a, c)) tr)) :
    wp spec mayHalt BufProg.chunkPtr Q (.idle (some (a, c)) tr) :=
  wp_bind.mpr (wp_dataBuf h)

theorem wp_chunkPtr_none {Q : Nat → View → Prop} (h : mayHalt .assertion) :
    wp spec mayHalt BufProg.chunkPtr Q (.idle none tr) :=
  wp_bind.mpr (wp_dataBuf (wp_bind.mpr (wp_assert (fun _ ↦ h) nofun)))

/-- `length` tells the length of the held chunk, or 0. -/
theorem wp_length {Q : Int → View → Prop}
    (h : Q (View.lengthOf b) (.idle b tr)) :
    wp spec mayHalt BufProg.length Q (.idle b tr) := by
  refine wp_bind.mpr (wp_dataBuf ?_)
  cases b with
  | none => exact h
  | some p => exact wp_bind.mpr (wp_load View.chunk_idle_some h)

/-- `clear` gives the chunk back. -/
theorem wp_clear {Q : Unit → View → Prop} (h : Q () (.idle none tr)) :
    wp spec mayHalt BufProg.clear Q (.idle b tr) := by
  refine wp_bind.mpr (wp_dataBuf ?_)
  cases b with
  | none => exact h
  | some p =>
    refine wp_bind.mpr (wp_retrieve View.chunk_idle_some (wp_setDataBuf ?_))
    rwa [View.drop_idle_some]

/-- `pop` gives an emptied chunk back. -/
theorem wp_pop {len : Int} {Q : Unit → View → Prop} (asserts : mayHalt .assertion)
    (rest : ∀ a c, b = some (a, c) → len ≤ c.length → (c.pop len).length ≠ 0 →
      Q () (.idle (some (a, c.pop len)) tr))
    (emptied : ∀ a c, b = some (a, c) → len ≤ c.length → (c.pop len).length = 0 →
      Q () (.idle none tr)) :
    wp spec mayHalt (BufProg.pop len) Q (.idle b tr) := by
  cases b with
  | none => exact wp_bind.mpr (wp_chunkPtr_none asserts)
  | some p =>
    obtain ⟨a, c⟩ := p
    refine wp_bind.mpr (wp_chunkPtr (wp_bind.mpr (wp_load View.chunk_idle_some
      (wp_bind.mpr (wp_assert (fun _ ↦ asserts) fun hle ↦ wp_bind.mpr (wp_modify
        View.chunk_idle_some (Chunk.capacity_pop c len) (fun _ ↦ c.storesInside_pop len) ?_))))))
    have hle := of_decide_eq_true hle
    rw [View.setChunk_idle_some]
    refine wp_bind.mpr (wp_load View.chunk_idle_some ?_)
    by_cases hzero : (c.pop len).length = 0
    · rw [if_pos hzero]
      refine wp_bind.mpr (wp_retrieve View.chunk_idle_some (wp_setDataBuf ?_))
      rw [View.drop_idle_some]
      exact emptied a c rfl hle hzero
    · rw [if_neg hzero]
      exact rest a c rfl hle hzero

/-- `adjust` compacts the held chunk. -/
theorem wp_adjust {Q : Unit → View → Prop} (within : strict → ∀ p ∈ b, p.2.Within)
    (h : Q () (.idle (b.map fun p ↦ (p.1, p.2.adjust)) tr)) :
    wp spec mayHalt BufProg.adjust Q (.idle b tr) := by
  refine wp_bind.mpr (wp_dataBuf ?_)
  cases b with
  | none => exact h
  | some p =>
    refine wp_modify View.chunk_idle_some (Chunk.capacity_adjust _)
      (fun hs ↦ (within hs p rfl).storesInside_adjust) ?_
    rwa [View.setChunk_idle_some]

/-- The chunk with room for `need` more bytes that comes after what a buffer held. -/
inductive Reserved (need : Int) : Option (Nat × Chunk) → Chunk → Prop
  | fresh {c : Chunk} (hclass : Mempool.findClass need = some c.capacity) (hlength : c.length = 0)
      (hhead : c.head = 0) : Reserved need none c
  | fits {a : Nat} {c : Chunk} (hhead : c.head = 0)
      (hroom : need ≤ int32 (c.capacity - c.length)) : Reserved need (some (a, c)) c
  | grown {a : Nat} {c n : Chunk} (hhead : c.head = 0)
      (hroom : int32 (c.capacity - c.length) < need)
      (hclass : Mempool.findClass (int32 (need + c.length)) = some n.capacity) :
      Reserved need (some (a, c)) (n.copy c)

/-- There is no size class with room for `need` more bytes after what a buffer holds. -/
inductive Refused (need : Int) : Option (Nat × Chunk) → Prop
  | fresh (hclass : Mempool.findClass need = none) : Refused need none
  | grown {a : Nat} {c : Chunk} (hclass : Mempool.findClass (int32 (need + c.length)) = none) :
      Refused need (some (a, c))

/-- `reserve` leaves the buffer as it was, or with room and the same bytes. -/
theorem wp_reserve {need : Int} {Q : Bool → View → Prop} (exits : mayHalt .exit)
    (asserts : mayHalt .assertion ∨ ∀ a c, b = some (a, c) → c.head = 0)
    (fail : Refused need b → Q false (.idle b tr))
    (ready : ∀ a c, Reserved need b c → Q true (.idle (some (a, c)) tr))
    (copies : strict → ∀ a c n, b = some (a, c) →
      Mempool.findClass (int32 (need + c.length)) = some n → c.length ≤ n) :
    wp spec mayHalt (BufProg.reserve need) Q (.idle b tr) := by
  refine wp_bind.mpr (wp_dataBuf ?_)
  cases b with
  | none =>
    refine wp_bind.mpr (wp_allocChunk exits (fun hclass ↦ ?_)
      fun a c _ hclass hlength hhead ↦ ?_)
    · exact wp_bind.mpr (wp_setDataBuf (fail (.fresh hclass)))
    · exact wp_bind.mpr (wp_setDataBuf (ready a c (.fresh hclass hlength hhead)))
  | some p =>
    obtain ⟨a, c⟩ := p
    refine wp_bind.mpr (wp_load View.chunk_idle_some (wp_bind.mpr (wp_assert ?_ fun hhead ↦ ?_)))
    · intro hhead
      exact asserts.elim id fun h ↦ absurd (h a c rfl) (of_decide_eq_false hhead)
    · have hhead := of_decide_eq_true hhead
      by_cases hroom : int32 (c.capacity - c.length) < need
      · rw [if_pos hroom]
        refine wp_bind.mpr (wp_allocChunk exits (fun hclass ↦ fail (.grown hclass))
          fun a' n ha' hclass _ _ ↦ ?_)
        have hne : a' ≠ a := by
          rintro rfl
          rw [View.chunk_idle_some] at ha'
          cases ha'
        have hold (n : Option Chunk) :
            ((View.idle (some (a, c)) tr).setChunk a' n).chunk a = some c := by
          simp [hne.symm]
        have hcapacity : 0 ≤ n.capacity := by
          have := (Mempool.findClass_range hclass).1
          omega
        have hinside (hs : strict) : n.StoresInside (·.copy c) :=
          Chunk.storesInside_copy (copies hs a c _ rfl hclass) hcapacity
        refine wp_bind.mpr (wp_load (hold _) (wp_bind.mpr (wp_modify (c := n) (by simp)
          (Chunk.capacity_copy n c) hinside (wp_bind.mpr (wp_retrieve (a := a) (c := c) ?_
            (wp_bind.mpr (wp_setDataBuf ?_)))))))
        · simp [hne.symm]
        · rw [View.setChunk_setChunk, View.swap_idle_some hne]
          exact ready a' _ (.grown hhead hroom hclass)
      · rw [if_neg hroom]
        exact ready a c (.fits hhead (Int.not_lt.mp hroom))

/-! ### Reading -/

theorem wp_readLoop {fd needRead : Int} {l : View} {Q : Option (List UInt8) → View → Prop}
    (error : spec.legal (.read fd (if needRead = 0 then 4096 else needRead)) (.read .error) l →
      Q none l)
    (bytes : ∀ values,
      spec.legal (.read fd (if needRead = 0 then 4096 else needRead)) (.read (.bytes values)) l →
        Q (some values) { l with trace := l.trace.read (.bytes values) }) :
    wp spec mayHalt (BufProg.readLoop fd needRead) Q l := by
  refine wp_repeatUntil (fun l' ↦ l' = l) rfl ?_
  rintro l' rfl
  refine wp_bind.mpr (wp_read fun result hlegal ↦ ?_)
  cases result with
  | eintr =>
    rw [Trace.read_of_delivers_nil _ rfl]
    rfl
  | error =>
    rw [Trace.read_of_delivers_nil _ rfl]
    exact error hlegal
  | bytes values => exact bytes values hlegal

/-- The chunk after `values` were read into it. -/
def Chunk.afterRead (c : Chunk) (values : List UInt8) : Chunk :=
  if 0 < int32 values.length then (c.storeBehind values).grow (int32 values.length)
  else c.storeBehind values

/-- `read_from_fd` fails and leaves the buffer as it was, fails with room reserved, or reads. -/
theorem wp_readFromFd {fd : Int} {Q : Int → View → Prop} (exits : mayHalt .exit)
    (asserts : mayHalt .assertion) (fail : Q (-1) (.idle b tr))
    (error : ∀ a c need, reports (some need) (.idle b tr) → Reserved need b c →
      spec.legal (.read fd (if need = 0 then 4096 else need)) (.read .error)
        (.idle (some (a, c)) tr) → Q (-1) (.idle (some (a, c)) tr))
    (done : ∀ a c need values, reports (some need) (.idle b tr) → Reserved need b c →
      spec.legal (.read fd (if need = 0 then 4096 else need)) (.read (.bytes values))
        (.idle (some (a, c)) tr) →
        (strict → c.length + values.length ≤ c.capacity) ∧
        Q (int32 values.length) (.idle (some (a, c.afterRead values)) (tr.read (.bytes values))))
    (copies : strict → ∀ need, reports (some need) (.idle b tr) → ∀ a c n, b = some (a, c) →
      Mempool.findClass (int32 (need + c.length)) = some n → c.length ≤ n) :
    wp spec mayHalt (BufProg.readFromFd fd) Q (.idle b tr) := by
  refine wp_bind.mpr (wp_fionread fun needRead hreports ↦ ?_)
  cases needRead with
  | none => exact fail
  | some needRead =>
    refine wp_bind.mpr (wp_reserve exits (Or.inl asserts) (fun _ ↦ fail) (fun a c hres ↦ ?_)
      fun hs ↦ copies hs _ hreports)
    refine wp_bind.mpr (wp_chunkPtr (wp_bind.mpr (wp_readLoop (error a c _ hreports hres) ?_)))
    intro values hlegal
    obtain ⟨hfits, hdone⟩ := done a c needRead values hreports hres hlegal
    unfold Chunk.afterRead at hdone
    dsimp only
    rw [View.trace_idle _ fun tr ↦ tr.read (.bytes values), wp_bind]
    refine wp_modify View.chunk_idle_some (Chunk.capacity_storeBehind c values)
      (fun hs ↦ Chunk.storesInside_storeBehind (hfits hs)) ?_
    rw [View.setChunk_idle_some]
    generalize int32 values.length = alreadyRead at hdone ⊢
    split at hdone
    · next hpos =>
      simp only [if_pos hpos]
      refine wp_bind.mpr (wp_assert (fun _ ↦ asserts) fun _ ↦ wp_bind.mpr
        (wp_modify View.chunk_idle_some (Chunk.capacity_grow _ _)
          (fun _ ↦ Chunk.storesInside_grow _ _) ?_))
      rwa [View.setChunk_idle_some]
    · next hpos =>
      simp only [if_neg hpos]
      exact hdone

end Operations

/-! ### Writing -/

section Writing

variable {legal : Effect → Input → View → Prop} {mayHalt : Halt → Prop}
  {b : Option (Nat × Chunk)} {tr : Trace}

/-- `write2buf` fails and leaves the buffer as it was, or appends. -/
theorem wp_write2buf {values : List UInt8} {Q : Int → View → Prop} (exits : mayHalt .exit)
    (asserts : mayHalt .assertion ∨ ∀ a c, b = some (a, c) → c.head = 0)
    (fail : Refused values.length b → Q (-1) (.idle b tr))
    (done : ∀ a c, Reserved values.length b c →
      Q 0 (.idle (some (a, (c.storeBehind values).grow values.length)) tr)) :
    wp (View.spec legal) mayHalt (BufProg.write2buf values) Q (.idle b tr) := by
  refine wp_bind.mpr (wp_reserve exits asserts fail (fun a c hres ↦ ?_) False.elim)
  refine wp_bind.mpr (wp_chunkPtr (wp_bind.mpr (wp_modify View.chunk_idle_some
    (Chunk.capacity_storeBehind c values) False.elim ?_)))
  rw [View.setChunk_idle_some]
  refine wp_bind.mpr (wp_modify View.chunk_idle_some (Chunk.capacity_grow _ _) False.elim ?_)
  rw [View.setChunk_idle_some]
  exact done a c hres

/-- `add_task` registers the descriptor for reading. -/
theorem wp_addTask {fd : Int} {Q : Unit → View → Prop}
    (h : Q () (.idle b (tr.poll (.add fd EPOLLIN (some .doRead) true)))) :
    wp (View.spec legal) mayHalt (BufProg.addTask fd) Q (.idle b tr) := by
  refine wp_addToPoller ?_
  rwa [View.trace_idle _ fun tr ↦ tr.poll (.add fd EPOLLIN (some .doRead) true)]

/-- `send` returns `true` exactly when `write2buf` has appended. -/
theorem wp_send {fd : Int} {values : List UInt8} {Q : Bool → View → Prop}
    (exits : mayHalt .exit)
    (asserts : mayHalt .assertion ∨ ∀ a c, b = some (a, c) → c.head = 0)
    (fail : Refused values.length b → Q false (.idle b tr))
    (done : ∀ a c, Reserved values.length b c →
      Q true (.idle (some (a, (c.storeBehind values).grow values.length))
        (tr.afterSend fd (View.lengthOf b)))) :
    wp (View.spec legal) mayHalt (BufProg.send fd values) Q (.idle b tr) := by
  refine wp_bind.mpr (wp_length (wp_bind.mpr (wp_write2buf exits asserts fail fun a c hres ↦ ?_)))
  have hdone := done a c hres
  unfold Trace.afterSend at hdone
  simp only [ne_eq, not_true_eq_false, if_false]
  split at hdone
  · next hlength =>
    rw [if_pos hlength]
    refine wp_bind.mpr (wp_addToPoller ?_)
    rw [View.trace_idle _ fun tr ↦ tr.poll (.add fd EPOLLOUT (some .doWrite) true)]
    exact hdone
  · next hlength =>
    rw [if_neg hlength]
    exact hdone

theorem wp_writeLoop {fd : Int} {values : List UInt8} {l : View} {Q : WriteResult → View → Prop}
    (h : ∀ result, result ≠ .eintr → legal (.write fd values) (.write result) l →
      Q result { l with trace := l.trace.write (result.taken values) }) :
    wp (View.spec legal) mayHalt (BufProg.writeLoop fd values) Q l := by
  refine wp_repeatUntil (fun l' ↦ l' = l) rfl ?_
  rintro _ rfl
  refine wp_bind.mpr (wp_write fun result hlegal ↦ ?_)
  have hresult := h result
  cases result with
  | eintr => simp [WriteResult.taken]
  | _ => exact hresult nofun hlegal

/-- The chunk after `write` has accepted `n` of its bytes. -/
def Chunk.afterWrite (c : Chunk) (n : Nat) : Chunk :=
  if 0 < int32 n then (c.pop (int32 n)).adjust else c

/-- `write2fd` leaves the buffer as it was, or takes what `write` has accepted out of it. -/
theorem wp_write2fd {fd : Int} {Q : Int → View → Prop}
    (asserts : mayHalt .assertion ∨ ∃ a c, b = some (a, c) ∧ c.head = 0)
    (rest : ∀ r, Q r (.idle b tr))
    (done : ∀ a c n, b = some (a, c) → c.head = 0 →
      legal (.write fd c.bytes) (.write (.count n)) (.idle b tr) →
        Q (int32 n) (.idle (some (a, c.afterWrite n)) (tr.write (c.bytes.take n)))) :
    wp (View.spec legal) mayHalt (BufProg.write2fd fd) Q (.idle b tr) := by
  cases b with
  | none =>
    refine wp_bind.mpr (wp_chunkPtr_none (asserts.elim id ?_))
    rintro ⟨a, c, h, -⟩
    cases h
  | some p =>
    obtain ⟨a, c⟩ := p
    refine wp_bind.mpr (wp_chunkPtr (wp_bind.mpr (wp_load View.chunk_idle_some
      (wp_bind.mpr (wp_assert ?_ fun hhead ↦ ?_)))))
    · intro hhead
      refine asserts.elim id ?_
      rintro ⟨a, c, ⟨⟩, h⟩
      exact absurd h (of_decide_eq_false hhead)
    · have hhead := of_decide_eq_true hhead
      have hbytes : window c.data 0 c.length = c.bytes := by rw [Chunk.bytes, hhead]
      rw [hbytes]
      refine wp_bind.mpr (wp_writeLoop fun result hne hlegal ↦ ?_)
      cases result with
      | count n =>
        have hdone := done a c n rfl hhead hlegal
        unfold Chunk.afterWrite at hdone
        dsimp only
        generalize int32 n = alreadyWrite at hdone ⊢
        split at hdone
        · next hpos =>
          rw [if_pos hpos]
          refine wp_bind.mpr (wp_modify View.chunk_idle_some (Chunk.capacity_pop c _) False.elim ?_)
          rw [View.trace_idle _ fun tr ↦ tr.write _, View.setChunk_idle_some]
          refine wp_bind.mpr (wp_modify View.chunk_idle_some (Chunk.capacity_adjust _)
            False.elim ?_)
          rwa [View.setChunk_idle_some]
        · next hpos =>
          rw [if_neg hpos]
          exact hdone
      | eintr => exact (hne rfl).elim
      | eagain =>
        simp only [WriteResult.taken, Trace.write_nil]
        exact rest 0
      | error =>
        simp only [WriteResult.taken, Trace.write_nil]
        exact rest (-1)

/-- What every pass of the loop of `do_write` keeps holds when it ends. -/
theorem wp_doWriteLoop {fd : Int} {Q : Bool → View → Prop}
    (I : Option (Nat × Chunk) → Trace → Prop) (start : I b tr)
    (asserts : mayHalt .assertion ∨ ∀ a c tr, I (some (a, c)) tr → c.head = 0)
    (keep : ∀ a c tr n, I (some (a, c)) tr → c.head = 0 → c.length ≠ 0 →
      legal (.write fd c.bytes) (.write (.count n)) (.idle (some (a, c)) tr) →
        I (some (a, c.afterWrite n)) (tr.write (c.bytes.take n)))
    (done : ∀ closes b tr, I b tr → Q closes (.idle b tr)) :
    wp (View.spec legal) mayHalt (BufProg.doWriteLoop fd) Q (.idle b tr) := by
  refine wp_repeatUntil (fun l ↦ ∃ b tr, I b tr ∧ l = .idle b tr) ⟨b, tr, start, rfl⟩ ?_
  rintro _ ⟨b, tr, hI, rfl⟩
  refine wp_bind.mpr (wp_length ?_)
  split
  · exact done false b tr hI
  · next hlength =>
    -- `tc_obuf` is not empty, so that there is a chunk.
    obtain ⟨a, c, rfl⟩ : ∃ a c, b = some (a, c) := by
      cases b with
      | none => exact (hlength rfl).elim
      | some p => exact ⟨p.1, p.2, rfl⟩
    have after (r : Int) {l : View} {Q : Option Bool → View → Prop} (h : ∀ o, Q o l) :
        wp (View.spec legal) mayHalt (if r = -1 then (pure (some true) : BufProg (Option Bool))
          else if r = 0 then pure (some false) else pure none) Q l := by
      split
      · exact h _
      · split <;> exact h _
    refine wp_bind.mpr (wp_write2fd ?_ (fun r ↦ after r ?_) ?_)
    · exact asserts.imp id fun h ↦ ⟨a, c, rfl, h a c tr hI⟩
    · rintro (- | closes)
      · exact ⟨some (a, c), tr, hI, rfl⟩
      · exact done closes _ _ hI
    · rintro a' c' n ⟨⟩ hhead hlegal
      have hkeep := keep a c tr n hI hhead hlength hlegal
      generalize int32 n = r
      refine after r ?_
      rintro (- | closes)
      · exact ⟨_, _, hkeep, rfl⟩
      · exact done closes _ _ hkeep

/-- `do_write` leaves what every pass of its loop keeps, or has closed the connection. -/
theorem wp_doWrite {fd : Int} {Q : Bool → View → Prop}
    (I : Option (Nat × Chunk) → Trace → Prop) (start : I b tr)
    (asserts : mayHalt .assertion ∨ ∀ a c tr, I (some (a, c)) tr → c.head = 0)
    (keep : ∀ a c tr n, I (some (a, c)) tr → c.head = 0 → c.length ≠ 0 →
      legal (.write fd c.bytes) (.write (.count n)) (.idle (some (a, c)) tr) →
        I (some (a, c.afterWrite n)) (tr.write (c.bytes.take n)))
    (isOpen : ∀ b tr, I b tr → Q false (.idle b (tr.afterDoWrite fd (View.lengthOf b))))
    (closed : ∀ tr, Q true (.idle none tr)) :
    wp (View.spec legal) mayHalt (BufProg.doWrite fd) Q (.idle b tr) := by
  refine wp_bind.mpr (wp_mono (Q := fun _ l ↦ ∃ b tr, I b tr ∧ l = .idle b tr) ?_ ?_)
  · exact wp_doWriteLoop I start asserts keep fun _ b tr hI ↦ ⟨b, tr, hI, rfl⟩
  · rintro closes _ ⟨b, tr, hI, rfl⟩
    cases closes with
    | true => exact wp_bind.mpr (wp_clear (closed tr))
    | false =>
      refine wp_bind.mpr (wp_length ?_)
      have hopen := isOpen b tr hI
      unfold Trace.afterDoWrite at hopen
      split at hopen
      · next hlength =>
        rw [if_pos hlength]
        refine wp_bind.mpr (wp_delFromPoller ?_)
        rw [View.trace_idle _ fun tr ↦ tr.poll (.delEvent fd EPOLLOUT true)]
        exact hopen
      · next hlength =>
        rw [if_neg hlength]
        exact hopen

end Writing

/-! ### Chunks in use -/

/-- The used part of a chunk has a place, and neither it nor the capacity exceeds the largest
class. -/
structure Chunk.Sound (c : Chunk) : Prop where
  head : 0 ≤ c.head
  length : 0 ≤ c.length
  used : c.head + c.length ≤ 4194304
  capacity : c.capacity ≤ 4194304

theorem Chunk.Sound.some {a : Nat} {c : Chunk} (h : c.Sound) :
    ∀ p ∈ some (a, c), p.2.Sound :=
  fun _ hp ↦ Option.some.inj hp ▸ h

namespace Chunk.Within

variable {c : Chunk}

theorem some {a : Nat} (h : c.Within) : ∀ p ∈ some (a, c), p.2.Within :=
  fun _ hp ↦ Option.some.inj hp ▸ h

/-- A `pop` that passes the assertion leaves no more than fits, unless a negative number of bytes
was too much. -/
theorem pop (h : c.Within) {len : Int} (le : len ≤ c.length)
    (room : c.length - len ≤ c.capacity) : (c.pop len).Within := by
  obtain ⟨-, -, hcapacity⟩ := h
  have hrest : int32 (c.length - len) = c.length - len := int32_of_range (by omega) (by omega)
  refine ⟨?_, ?_, hcapacity⟩
  · change 0 ≤ int32 (c.length - len)
    omega
  · change int32 (c.length - len) ≤ c.capacity
    omega

theorem adjust (h : c.Within) : c.adjust.Within := by
  obtain ⟨hlength, hfits, hcapacity⟩ := h
  exact ⟨by rwa [length_adjust], by rwa [length_adjust, capacity_adjust],
    by rwa [capacity_adjust]⟩

/-- What fits can be added. -/
theorem grow (h : c.Within) {n : Int} (nonneg : 0 ≤ n) (fits : c.length + n ≤ c.capacity) :
    (c.grow n).Within := by
  obtain ⟨hlength, -, hcapacity⟩ := h
  have hsum : int32 (c.length + n) = c.length + n := int32_of_range (by omega) (by omega)
  refine ⟨?_, ?_, hcapacity⟩
  · change 0 ≤ int32 (c.length + n)
    omega
  · change int32 (c.length + n) ≤ c.capacity
    omega

/-- Bytes that fit can be read. -/
theorem afterRead (h : c.Within) {values : List UInt8}
    (fits : c.length + values.length ≤ c.capacity) : (c.afterRead values).Within := by
  obtain ⟨hlength, hfits, hcapacity⟩ := h
  have hstored : (c.storeBehind values).Within := ⟨hlength, hfits, hcapacity⟩
  have hvalues : int32 values.length = values.length := int32_of_range (by omega) (by omega)
  rw [Chunk.afterRead, hvalues]
  split
  · exact hstored.grow (Int.natCast_nonneg _) fits
  · exact hstored

end Chunk.Within

namespace Reserved

variable {need : Int} {b : Option (Nat × Chunk)} {c : Chunk}

theorem head (h : Reserved need b c) : c.head = 0 := by
  cases h with
  | fresh _ _ hhead => exact hhead
  | fits hhead _ => exact hhead
  | grown _ _ _ => rfl

/-- Reserving room leaves the length. -/
theorem length (h : Reserved need b c) : c.length = View.lengthOf b := by
  cases h with
  | fresh _ hlength _ => exact hlength
  | fits _ _ => rfl
  | grown _ _ _ => rfl

/-- Reserving room changes no bytes. -/
theorem bytes (h : Reserved need b c) (nonneg : ∀ p ∈ b, 0 ≤ p.2.length) :
    c.bytes = View.content b := by
  cases h with
  | fresh _ hlength _ => exact Chunk.bytes_of_length_zero hlength
  | fits _ _ => rfl
  | @grown a c n _ _ _ => exact Chunk.bytes_copy n (nonneg (a, c) rfl)

/-- Reserving room changes no bytes and leaves a sound chunk. -/
theorem sound (h : Reserved need b c) (sound : ∀ p ∈ b, p.2.Sound) :
    c.Sound ∧ c.bytes = View.content b := by
  refine ⟨?_, h.bytes fun p hp ↦ (sound p hp).length⟩
  cases h with
  | fresh hclass hlength hhead =>
    have := (Mempool.findClass_range hclass).2
    exact ⟨by omega, by omega, by omega, this⟩
  | fits hhead _ => exact sound _ rfl
  | @grown a c n hhead _ hclass =>
    have hc := sound _ rfl
    have hused := hc.used
    refine ⟨Int.le_refl 0, hc.length, ?_, (Mempool.findClass_range hclass).2⟩
    simpa [Chunk.copy, hhead] using hused

/-- A reserved chunk is not too small for the bytes already there, if the copy was not. -/
theorem within (h : Reserved need b c) (within : ∀ p ∈ b, p.2.Within)
    (copies : ∀ a c n, b = some (a, c) →
      Mempool.findClass (int32 (need + c.length)) = some n → c.length ≤ n) : c.Within := by
  cases h with
  | fresh hclass hlength _ =>
    obtain ⟨hlo, hhi⟩ := Mempool.findClass_range hclass
    exact ⟨by omega, by omega, hhi⟩
  | fits _ _ => exact within _ rfl
  | @grown a c n _ _ hclass =>
    exact ⟨(within _ rfl).length, copies a c _ rfl hclass, (Mempool.findClass_range hclass).2⟩

/-- There is the room that was asked for, if the sum of both lengths is an `int`. -/
theorem room (h : Reserved need b c) (within : ∀ p ∈ b, p.2.Within) (nonneg : 0 ≤ need)
    (inRange : b ≠ none → need + View.lengthOf b ≤ intMax) : c.length + need ≤ c.capacity := by
  cases h with
  | fresh hclass hlength _ =>
    have := (Mempool.findClass_eq_some hclass).2
    omega
  | fits _ hroom =>
    have hc : c.Within := within _ rfl
    obtain ⟨hlength, hfits, hcapacity⟩ := hc
    rw [int32_of_range (by omega) (by omega)] at hroom
    omega
  | @grown a c n _ _ hclass =>
    have hlength : 0 ≤ c.length := (within _ rfl).length
    have hsum : need + c.length ≤ intMax := inRange nofun
    have hmax : intMax = 2 ^ 31 - 1 := rfl
    rw [int32_of_range (by omega) (by omega)] at hclass
    have hle := (Mempool.findClass_eq_some hclass).2
    change c.length + need ≤ n.capacity
    omega

/-- What is stored behind reserved room is appended and fits. -/
theorem append {values : List UInt8} (h : Reserved values.length b c)
    (within : ∀ p ∈ b, p.2.Within)
    (inRange : b ≠ none → values.length + View.lengthOf b ≤ intMax) :
    ((c.storeBehind values).grow values.length).Within ∧
      ((c.storeBehind values).grow values.length).bytes = View.content b ++ values := by
  have nonneg : (0 : Int) ≤ values.length := Int.natCast_nonneg _
  have hroom := h.room within nonneg inRange
  have hc : c.Within := h.within within fun a c' n hb hclass ↦ by
    subst hb
    have hlength : 0 ≤ c'.length := (within _ rfl).length
    have hsum : values.length + c'.length ≤ intMax := inRange nofun
    have hmax : intMax = 2 ^ 31 - 1 := rfl
    rw [int32_of_range (by omega) (by omega)] at hclass
    have := (Mempool.findClass_eq_some hclass).2
    omega
  obtain ⟨hlength, hfits, hcapacity⟩ := hc
  have hsum : int32 (c.length + values.length) = c.length + values.length :=
    int32_of_range (by omega) (by omega)
  have hstored : (c.storeBehind values).Within := ⟨hlength, hfits, hcapacity⟩
  refine ⟨hstored.grow nonneg hroom, ?_⟩
  rw [Chunk.bytes_append h.head hlength hsum, h.bytes fun p hp ↦ (within p hp).length]

end Reserved

end ConcurrentServer.Memory
