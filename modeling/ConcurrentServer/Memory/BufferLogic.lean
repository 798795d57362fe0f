import ConcurrentServer.Memory.DataBuf

/-!
# What a buffer owns

The part of the world that belongs to one buffer, what each effect does to it, and the proof
that the effects of different buffers respect these parts: a chunk is on a free list or in the
hands of one buffer. `src/memory/data_buf.cpp`, `src/memory/mem_pool.cpp`.
-/

namespace ConcurrentServer.Memory
open ConcurrentServer.Base ConcurrentServer.Net

/-- What one buffer owns: the chunks in its hands, its `data_buf`, and what has gone into it and out
of it. -/
structure View where
  chunk : Nat → Option Chunk
  dataBuf : Option Nat
  trace : Trace

namespace View

/-- The buffer gets or changes chunk `a`, or gives it away. -/
def setChunk (l : View) (a : Nat) (c : Option Chunk) : View :=
  { l with chunk := Function.update l.chunk a c }

@[simp] theorem chunk_setChunk (l : View) (a : Nat) (c : Option Chunk) :
    (l.setChunk a c).chunk = Function.update l.chunk a c := rfl

/-- Before an effect: only owned chunks are used, and no change touches a capacity. -/
def Ok : Effect → View → Prop
  | .load a, l | .retrieve a, l => (l.chunk a).isSome
  | .modify a f, l => ∃ c, l.chunk a = some c ∧ (f c).capacity = c.capacity
  | _, _ => True

/-- What an effect does to the part of its buffer. -/
def Act : (e : Effect) → Input → View → Outcome Halt e.Result View → Prop
  | .dataBuf, _, l, out => out = .value l.dataBuf l
  | .setDataBuf p, _, l, out => out = .value () { l with dataBuf := p }
  | .load a, _, l, out => ∃ c, l.chunk a = some c ∧ out = .value c l
  | .modify a f, _, l, out => ∃ c, l.chunk a = some c ∧ out = .value () (l.setChunk a (f c))
  | .allocChunk n, _, l, out => out = .halt .exit ∨
      (Mempool.findClass n = none ∧ out = .value none l) ∨
      ∃ (a : Nat) (c : Chunk), l.chunk a = none ∧ Mempool.findClass n = some c.capacity ∧
        c.length = 0 ∧ c.head = 0 ∧ out = .value (some a) (l.setChunk a c)
  | .retrieve a, _, l, out => out = .value () (l.setChunk a none)
  | .assert b, _, l, out => out = if b then .value () l else .halt .assertion
  | .fionread _, _, l, out => ∃ result, out = .value result l
  | .read _ _, inp, l, out => ∃ result, inp = .read result ∧
      out = .value result { l with trace := l.trace.read result }
  | .write _ values, inp, l, out => ∃ result, inp = .write result ∧
      out = .value result { l with trace := l.trace.write (result.taken values) }
  | .addToPoller fd event cb, _, l, out =>
    out = .value () { l with trace := l.trace.poll (.add fd event cb true) }
  | .delFromPoller fd event, _, l, out =>
    out = .value () { l with trace := l.trace.poll (.delEvent fd event true) }

/-- The effects of a buffer, for the inputs that `legal` considers. -/
def spec (legal : Effect → Input → View → Prop) :
    LocalSpec Effect Effect.Result Input Halt View where
  ok := Ok
  legal := legal
  act := Act

/-- The part of a buffer that is not in the middle of a call. -/
def idle : Option (Nat × Chunk) → Trace → View
  | none, tr => ⟨fun _ ↦ none, none, tr⟩
  | some (a, c), tr => ⟨Function.update (fun _ ↦ none) a (some c), some a, tr⟩

end View

/-- The parts make up the world. -/
structure Split (ls : BufferId → View) (w : World) : Prop where
  dataBuf : ∀ i, w.dataBuf i = (ls i).dataBuf
  trace : ∀ i, w.trace i = (ls i).trace
  chunk : ∀ i a c, (ls i).chunk a = some c → w.pool.chunks a = c
  apart : ∀ i j a, ((ls i).chunk a).isSome → ((ls j).chunk a).isSome → i = j
  pool : ∃ free, w.pool.Partition free fun a ↦ ∃ i, ((ls i).chunk a).isSome
  keys : w.pool.HasKeys

variable {ls : BufferId → View} {w w' : World} {i : BufferId}

namespace Split

/-- Buffer `i` changes its part but for its chunks. -/
theorem updateRest (h : Split ls w) {l : View} (chunk : l.chunk = (ls i).chunk)
    (dataBuf : w'.dataBuf = Function.update w.dataBuf i l.dataBuf)
    (trace : w'.trace = Function.update w.trace i l.trace) (pool : w'.pool = w.pool) :
    Split (Function.update ls i l) w' := by
  have same (j : BufferId) : (Function.update ls i l j).chunk = (ls j).chunk := by
    by_cases hj : j = i
    · rw [hj, Function.update_self, chunk]
    · rw [Function.update_of_ne hj]
  refine ⟨fun j ↦ ?_, fun j ↦ ?_, ?_, ?_, ?_, pool ▸ h.keys⟩
  · by_cases hj : j = i
    · rw [dataBuf, hj, Function.update_self, Function.update_self]
    · rw [dataBuf, Function.update_of_ne hj, Function.update_of_ne hj, h.dataBuf]
  · by_cases hj : j = i
    · rw [trace, hj, Function.update_self, Function.update_self]
    · rw [trace, Function.update_of_ne hj, Function.update_of_ne hj, h.trace]
  · simpa only [same, pool] using h.chunk
  · simpa only [same] using h.apart
  · simpa only [same, pool] using h.pool

/-- Buffer `i` changes what it has of chunk `a`, which no other buffer has. -/
theorem updateChunk (h : Split ls w) {a : Nat} {c : Option Chunk}
    (alone : ∀ j, ((ls j).chunk a).isSome → j = i) (value : ∀ c' ∈ c, w'.pool.chunks a = c')
    (frame : ∀ b ≠ a, w'.pool.chunks b = w.pool.chunks b)
    (dataBuf : w'.dataBuf = w.dataBuf) (trace : w'.trace = w.trace)
    (pool : ∃ free, w'.pool.Partition free fun b ↦
      (b = a ∧ c.isSome) ∨ (b ≠ a ∧ ∃ j, ((ls j).chunk b).isSome))
    (keys : w'.pool.HasKeys) :
    Split (Function.update ls i ((ls i).setChunk a c)) w' := by
  have rest (j : BufferId) :
      (Function.update ls i ((ls i).setChunk a c) j).dataBuf = (ls j).dataBuf ∧
      (Function.update ls i ((ls i).setChunk a c) j).trace = (ls j).trace := by
    by_cases hj : j = i
    · subst hj
      rw [Function.update_self]
      exact ⟨rfl, rfl⟩
    · rw [Function.update_of_ne hj]
      exact ⟨rfl, rfl⟩
  have chunkOf (j : BufferId) (b : Nat) :
      (Function.update ls i ((ls i).setChunk a c) j).chunk b =
        if j = i ∧ b = a then c else (ls j).chunk b := by
    by_cases hj : j = i
    · subst hj
      rw [Function.update_self, View.chunk_setChunk, Function.update_apply]
      simp
    · rw [Function.update_of_ne hj]
      simp [hj]
  have other {j : BufferId} (hj : j ≠ i) : ((ls j).chunk a).isSome = false := by
    cases hsome : ((ls j).chunk a).isSome with
    | false => rfl
    | true => exact absurd (alone j hsome) hj
  refine ⟨fun j ↦ ?_, fun j ↦ ?_, fun j b c' hc ↦ ?_, fun j k b hj hk ↦ ?_, ?_, keys⟩
  · rw [dataBuf, (rest j).1, h.dataBuf]
  · rw [trace, (rest j).2, h.trace]
  · rw [chunkOf] at hc
    split at hc
    · next hab => rw [hab.2]; exact value c' hc
    · next hab =>
      by_cases hba : b = a
      · subst hba
        have hji : j ≠ i := fun hji ↦ hab ⟨hji, rfl⟩
        have := other hji
        rw [hc] at this
        cases this
      · rw [frame b hba]
        exact h.chunk j b c' hc
  · rw [chunkOf] at hj hk
    split at hj
    · next hji =>
      split at hk
      · next hki => rw [hji.1, hki.1]
      · exact hji.1.trans (alone k (hji.2 ▸ hk)).symm
    · split at hk
      · next hki => exact (alone j (hki.2 ▸ hj)).trans hki.1.symm
      · exact h.apart j k b hj hk
  · obtain ⟨free, hpart⟩ := pool
    refine ⟨free, hpart.out_congr fun b ↦ ?_⟩
    simp only [chunkOf]
    by_cases hba : b = a
    · subst hba
      constructor
      · rintro (⟨-, hc⟩ | ⟨hne, -⟩)
        · exact ⟨i, by simpa using hc⟩
        · exact absurd rfl hne
      · rintro ⟨j, hj⟩
        by_cases hji : j = i
        · exact Or.inl ⟨rfl, by simpa [hji] using hj⟩
        · simp [hji, other hji] at hj
    · simp [hba]

/-- More has gone into buffer `i` or out of it. -/
theorem record (h : Split ls w) (f : Trace → Trace) :
    Split (Function.update ls i { ls i with trace := f (ls i).trace }) (w.record i f) := by
  refine h.updateRest rfl ?_ ?_ rfl
  · dsimp only
    rw [← h.dataBuf, Function.update_eq_self]
    rfl
  · rw [World.record, h.trace]

/-- An effect that answers respects the parts. -/
theorem value (h : Split ls w) {e : Effect} {inp : Input} {r : e.Result} (ok : View.Ok e (ls i))
    (hexec : w.exec i e inp = some (.value r w')) :
    ∃ l', View.Act e inp (ls i) (.value r l') ∧ Split (Function.update ls i l') w' := by
  have keep : Split (Function.update ls i (ls i)) w := by rwa [Function.update_eq_self]
  cases e with
  | dataBuf =>
    obtain ⟨rfl, rfl⟩ := Outcome.value.inj (Option.some.inj hexec)
    exact ⟨ls i, by rw [h.dataBuf]; rfl, keep⟩
  | setDataBuf p =>
    obtain ⟨-, rfl⟩ := Outcome.value.inj (Option.some.inj hexec)
    refine ⟨_, rfl, h.updateRest rfl rfl ?_ rfl⟩
    dsimp only
    rw [← h.trace, Function.update_eq_self]
  | load a =>
    obtain ⟨rfl, rfl⟩ := Outcome.value.inj (Option.some.inj hexec)
    obtain ⟨c, hc⟩ := Option.isSome_iff_exists.mp ok
    exact ⟨ls i, ⟨c, hc, by rw [h.chunk i a c hc]⟩, keep⟩
  | modify a f =>
    obtain ⟨-, rfl⟩ := Outcome.value.inj (Option.some.inj hexec)
    obtain ⟨c, hc, hcap⟩ := ok
    obtain ⟨free, hpart⟩ := h.pool
    have hout : ∃ j, ((ls j).chunk a).isSome := ⟨i, by rw [hc]; rfl⟩
    have hval := h.chunk i a c hc
    refine ⟨_, ⟨c, hc, rfl⟩, h.updateChunk (fun j hj ↦ h.apart j i a hj (by rw [hc]; rfl)) ?_ ?_
      rfl rfl ⟨free, (hpart.modify hout (by rw [hval, hcap])).out_congr fun b ↦ ?_⟩ h.keys⟩
    · rintro c' ⟨⟩
      exact (Mempool.chunks_modify_self f).trans (by rw [hval])
    · exact fun b hb ↦ Mempool.chunks_modify_of_ne hb f
    · by_cases hb : b = a
      · simp [hb, hout]
      · simp [hb]
  | allocChunk n =>
    cases inp with
    | alloc newOk block =>
      simp only [World.exec] at hexec
      cases halloc : w.pool.allocChunk n newOk block with
      | error hr => rw [halloc] at hexec; cases hexec
      | ok res =>
        obtain ⟨p, pool⟩ := res
        rw [halloc] at hexec
        obtain ⟨rfl, rfl⟩ := Outcome.value.inj (Option.some.inj hexec)
        obtain ⟨free, hpart⟩ := h.pool
        rcases hpart.allocChunk h.keys halloc with ⟨rfl, hclass, rfl⟩ |
          ⟨a, free', rfl, hout, hpart', hkeys, hclass, hlen, hhead, -, hframe, -⟩
        · exact ⟨ls i, Or.inr (Or.inl ⟨hclass, rfl⟩), keep⟩
        · have hnone (j : BufferId) : (ls j).chunk a = none := by
            by_contra hne
            exact hout ⟨j, Option.isSome_iff_ne_none.mpr hne⟩
          refine ⟨_, Or.inr (Or.inr ⟨a, pool.chunks a, hnone i, hclass, hlen, hhead, rfl⟩),
            h.updateChunk (fun j hj ↦ by rw [hnone j] at hj; cases hj) ?_ hframe rfl rfl
              ⟨free', hpart'.out_congr fun b ↦ ?_⟩ hkeys⟩
          · rintro c' ⟨⟩
            rfl
          · by_cases hb : b = a
            · simp [hb]
            · simp [hb]
    | _ => cases hexec
  | retrieve a =>
    obtain ⟨c, hc⟩ := Option.isSome_iff_exists.mp ok
    obtain ⟨free, hpart⟩ := h.pool
    have hout : ∃ j, ((ls j).chunk a).isSome := ⟨i, by rw [hc]; rfl⟩
    obtain ⟨pool, hret, hpart', hkeys, hframe, -⟩ := hpart.retrieve h.keys hout
    simp only [World.exec, hret] at hexec
    obtain ⟨-, rfl⟩ := Outcome.value.inj (Option.some.inj hexec)
    refine ⟨_, rfl, h.updateChunk (fun j hj ↦ h.apart j i a hj (by rw [hc]; rfl)) nofun hframe
      rfl rfl ⟨_, hpart'.out_congr fun b ↦ ?_⟩ hkeys⟩
    by_cases hb : b = a
    · simp [hb]
    · simp [hb]
  | assert b =>
    cases b with
    | false => simp [World.exec] at hexec
    | true =>
      obtain ⟨-, rfl⟩ := Outcome.value.inj (Option.some.inj hexec)
      exact ⟨ls i, rfl, keep⟩
  | fionread fd =>
    cases inp with
    | fionread result =>
      obtain ⟨rfl, rfl⟩ := Outcome.value.inj (Option.some.inj hexec)
      exact ⟨ls i, ⟨_, rfl⟩, keep⟩
    | _ => cases hexec
  | read fd n =>
    cases inp with
    | read result =>
      obtain ⟨rfl, rfl⟩ := Outcome.value.inj (Option.some.inj hexec)
      exact ⟨_, ⟨_, rfl, rfl⟩, h.record fun tr ↦ tr.read result⟩
    | _ => cases hexec
  | write fd values =>
    cases inp with
    | write result =>
      obtain ⟨rfl, rfl⟩ := Outcome.value.inj (Option.some.inj hexec)
      exact ⟨_, ⟨_, rfl, rfl⟩, h.record fun tr ↦ tr.write (result.taken values)⟩
    | _ => cases hexec
  | addToPoller fd event cb =>
    obtain ⟨-, rfl⟩ := Outcome.value.inj (Option.some.inj hexec)
    exact ⟨_, rfl, h.record fun tr ↦ tr.poll (.add fd event cb true)⟩
  | delFromPoller fd event =>
    obtain ⟨-, rfl⟩ := Outcome.value.inj (Option.some.inj hexec)
    exact ⟨_, rfl, h.record fun tr ↦ tr.poll (.delEvent fd event true)⟩

/-- An effect that ends the process does so for its own buffer's reasons. -/
theorem halt (h : Split ls w) {e : Effect} {inp : Input} {hr : Halt} (ok : View.Ok e (ls i))
    (hexec : w.exec i e inp = some (.halt hr)) : View.Act e inp (ls i) (.halt hr) := by
  cases e with
  | allocChunk n =>
    cases inp with
    | alloc newOk block =>
      simp only [World.exec] at hexec
      cases halloc : w.pool.allocChunk n newOk block with
      | ok res => rw [halloc] at hexec; cases hexec
      | error hr' =>
        rw [halloc] at hexec
        obtain rfl := Outcome.halt.inj (Option.some.inj hexec)
        rw [(Mempool.halt_of_allocChunk halloc).1]
        exact Or.inl rfl
    | _ => cases hexec
  | retrieve a =>
    obtain ⟨c, hc⟩ := Option.isSome_iff_exists.mp ok
    obtain ⟨free, hpart⟩ := h.pool
    obtain ⟨pool, hret, -⟩ := hpart.retrieve h.keys ⟨i, by rw [hc]; rfl⟩
    simp [World.exec, hret] at hexec
  | assert b =>
    cases b with
    | true => simp [World.exec] at hexec
    | false =>
      obtain rfl := Outcome.halt.inj (Option.some.inj hexec)
      rfl
  | fionread fd => cases inp <;> cases hexec
  | read fd n => cases inp <;> cases hexec
  | write fd values => cases inp <;> cases hexec
  | _ => cases hexec

/-- At the start no buffer has a chunk. -/
theorem init (block : Nat → Int → UInt8) :
    Split (fun _ ↦ View.idle none ⟨[], [], []⟩) (World.init block) where
  dataBuf _ := rfl
  trace _ := rfl
  chunk _ _ _ h := nomatch h
  apart _ _ _ h := nomatch h
  pool := by
    obtain ⟨free, hpart, -⟩ := Mempool.partition_new block
    exact ⟨free, hpart.out_congr fun a ↦ by simp [View.idle]⟩
  keys := (Mempool.partition_new block).choose_spec.2.1

end Split

end ConcurrentServer.Memory
