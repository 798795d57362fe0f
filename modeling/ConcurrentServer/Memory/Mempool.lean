import ConcurrentServer.Base.Linked
import ConcurrentServer.Memory.Chunk

/-!
# The memory pool

`src/memory/mem_pool.h`, `src/memory/mem_pool.cpp`. The pool's fields and all chunks that it
has ever created. `alloc_chunk` and `retrieve` hold the pool's lock while they use its lists and
counters, and are one operation each. The process ends where the code calls `exit`, where an
assertion fails, and where memory runs out.
-/

namespace ConcurrentServer.Memory
open ConcurrentServer.Base

/-- How the process ends. -/
inductive Halt
  | assertion
  | exit
  deriving DecidableEq, Repr

/-- The values of `MEM_CAP`, which `index` runs through in `alloc_chunk`. -/
def memCaps : List Int := [4096, 16384, 65536, 262144, 1048576, 4194304]

/-- `MAX_POOL_SIZE`. -/
def maxPoolSize : UInt64 := 4 * 1024 * 1024

/-- `size / 1024` as the counters take it. -/
def sizeKb (size : Int) : UInt64 := .ofNat (size / 1024).toNat

/-- `Mempool`, with the chunks in order of creation. -/
structure Mempool where
  chunks : Nat → Chunk
  created : Nat
  mpPool : Int → Option (Option Nat)
  mpTotalSizeKb : UInt64
  mpLeftSizeKb : UInt64

namespace Mempool

/-- The pointer that `mp_pool[index]` yields. -/
def head (mp : Mempool) (index : Int) : Option Nat := (mp.mpPool index).join

/-- `mp_pool[index] = p`; also what reading a missing key does, with the null pointer. -/
def setHead (mp : Mempool) (index : Int) (p : Option Nat) : Mempool :=
  { mp with mpPool := Function.update mp.mpPool index (some p) }

/-- Chunk `a` changes. -/
def modify (mp : Mempool) (a : Nat) (f : Chunk → Chunk) : Mempool :=
  { mp with chunks := Function.update mp.chunks a (f (mp.chunks a)) }

/-- `new Chunk(size)`: it becomes chunk `created`. -/
def newChunk (mp : Mempool) (size : Int) (block : Int → UInt8) : Mempool :=
  { mp with
    chunks := Function.update mp.chunks mp.created (.new size block)
    created := mp.created + 1 }

/-- The class that the loop of `alloc_chunk` stops at. -/
def findClass (n : Int) : Option Int := memCaps.find? fun index ↦ n ≤ index

/-- `Mempool::alloc_chunk`; `newOk` says whether there is memory for a new chunk. -/
def allocChunk (mp : Mempool) (n : Int) (newOk : Bool) (block : Int → UInt8) :
    Except Halt (Option Nat × Mempool) :=
  match findClass n with
  | none => .ok (none, mp)
  | some index =>
    match mp.head index with
    | none =>
      if maxPoolSize ≤ mp.mpTotalSizeKb + sizeKb index then .error .exit
      else if newOk = false then .error .exit
      else
        let mp' := (mp.setHead index none).newChunk index block
        .ok (some mp.created, { mp' with mpTotalSizeKb := mp'.mpTotalSizeKb + sizeKb index })
    | some target =>
      let mp' := (mp.setHead index (mp.chunks target).next).modify target fun c ↦
        { c with next := none }
      .ok (some target, { mp' with mpLeftSizeKb := mp'.mpLeftSizeKb - sizeKb index })

/-- `Mempool::retrieve`. -/
def retrieve (mp : Mempool) (block : Nat) : Except Halt Mempool :=
  let index := (mp.chunks block).capacity
  match mp.mpPool index with
  | none => .error .assertion
  | some p =>
    let mp' := (mp.modify block fun c ↦ { c.reset with next := p }).setHead index (some block)
    .ok { mp' with mpLeftSizeKb := mp'.mpLeftSizeKb + sizeKb index }

/-- The loop of `mem_init`, with `i` passes to come. -/
def memInitLoop (size : Int) (block : Nat → Int → UInt8) : Nat → Nat → Mempool → Mempool
  | 0, _, mp => mp
  | i + 1, prev, mp =>
    memInitLoop size block i mp.created
      ((mp.newChunk size (block mp.created)).modify prev fun c ↦ { c with next := mp.created })

/-- `Mempool::mem_init`; `block a` is what the memory of chunk `a` contains. -/
def memInit (mp : Mempool) (size : Int) (chunkNum : Nat) (block : Nat → Int → UInt8) : Mempool :=
  let mp' := (mp.newChunk size (block mp.created)).setHead size mp.created
  let mp' := memInitLoop size block (chunkNum - 1) mp.created mp'
  { mp' with mpTotalSizeKb := mp'.mpTotalSizeKb + sizeKb size * .ofNat chunkNum }

/-- Before the body of the constructor. -/
def empty : Mempool where
  chunks := fun _ ↦ .new 0 fun _ ↦ 0
  created := 0
  mpPool := fun _ ↦ none
  mpTotalSizeKb := 0
  mpLeftSizeKb := 0

/-- `Mempool::Mempool`. -/
def new (block : Nat → Int → UInt8) : Mempool :=
  let mp := empty.memInit 4096 2000 block
  let mp := mp.memInit 16384 500 block
  let mp := mp.memInit 65536 250 block
  let mp := mp.memInit 262144 100 block
  let mp := mp.memInit 1048576 25 block
  let mp := mp.memInit 4194304 10 block
  { mp with mpLeftSizeKb := mp.mpTotalSizeKb }

/-! ### Who has the chunks -/

/-- The `next` field of chunk `a`. -/
def next (mp : Mempool) (a : Nat) : Option Nat := (mp.chunks a).next

/-- The chunks on the list of each class are `free`, those handed out are `out`, and every chunk
is in exactly one of these places. -/
structure Partition (mp : Mempool) (free : Int → List Nat) (out : Nat → Prop) : Prop where
  linked : ∀ index, Linked mp.next (mp.head index) (free index)
  nodup : ∀ index, (free index).Nodup
  listed : ∀ index, ∀ a ∈ free index, a < mp.created ∧ ¬ out a ∧ (mp.chunks a).capacity = index ∧
    (mp.chunks a).length = 0 ∧ (mp.chunks a).head = 0
  handedOut : ∀ a, out a → a < mp.created ∧ (mp.chunks a).capacity ∈ memCaps
  covered : ∀ a < mp.created, out a ∨ a ∈ free (mp.chunks a).capacity

/-- Every class has a list. -/
def HasKeys (mp : Mempool) : Prop := ∀ index ∈ memCaps, (mp.mpPool index).isSome

variable {mp mp' : Mempool} {free : Int → List Nat} {out : Nat → Prop} {a : Nat} {index : Int}

@[simp] theorem head_setHead_self (p : Option Nat) : (mp.setHead index p).head index = p := by
  simp [setHead, head]

theorem head_setHead_of_ne {index' : Int} (h : index' ≠ index) (p : Option Nat) :
    (mp.setHead index p).head index' = mp.head index' := by
  simp [setHead, head, h]

theorem chunks_modify_of_ne {b : Nat} (h : b ≠ a) (f : Chunk → Chunk) :
    (mp.modify a f).chunks b = mp.chunks b := by
  simp [modify, h]

@[simp] theorem chunks_modify_self (f : Chunk → Chunk) :
    (mp.modify a f).chunks a = f (mp.chunks a) := by
  simp [modify]

theorem chunks_newChunk_of_ne {size : Int} {block : Int → UInt8} (h : a ≠ mp.created) :
    (mp.newChunk size block).chunks a = mp.chunks a := Function.update_of_ne h ..

@[simp] theorem chunks_newChunk_self {size : Int} {block : Int → UInt8} :
    (mp.newChunk size block).chunks mp.created = .new size block := Function.update_self ..

/-- A listed chunk is not handed out. -/
theorem Partition.ne_of_mem (h : mp.Partition free out) (ha : out a) {b : Nat}
    (hb : b ∈ free index) : b ≠ a := by
  rintro rfl
  exact (h.listed index b hb).2.1 ha

/-- Who has been handed chunks may be said differently. -/
theorem Partition.out_congr (h : mp.Partition free out) {out' : Nat → Prop}
    (same : ∀ a, out a ↔ out' a) : mp.Partition free out' := by
  rwa [show out' = out from funext fun a ↦ propext (same a).symm]

/-- A holder changes its chunk. -/
theorem Partition.modify (h : mp.Partition free out) (ha : out a) {f : Chunk → Chunk}
    (capacity : (f (mp.chunks a)).capacity = (mp.chunks a).capacity) :
    (mp.modify a f).Partition free out where
  linked index := (h.linked index).congr fun b hb ↦
    congrArg Chunk.next (chunks_modify_of_ne (h.ne_of_mem ha hb) f)
  nodup := h.nodup
  listed index b hb := by
    rw [chunks_modify_of_ne (h.ne_of_mem ha hb)]
    exact h.listed index b hb
  handedOut b hb := by
    by_cases hba : b = a
    · rw [hba, chunks_modify_self, capacity]
      exact h.handedOut a ha
    · rw [chunks_modify_of_ne hba]
      exact h.handedOut b hb
  covered b hb := by
    by_cases hba : b = a
    · exact Or.inl (hba ▸ ha)
    · rw [chunks_modify_of_ne hba]
      exact h.covered b hb

/-! ### alloc_chunk -/

/-- A class that the loop stops at is one of the six and large enough. -/
theorem findClass_eq_some {n : Int} (h : findClass n = some index) :
    index ∈ memCaps ∧ n ≤ index := by
  have hn := List.find?_some h
  exact ⟨List.mem_of_find?_eq_some h, by simpa using hn⟩

/-- The counters do not matter. -/
theorem Partition.counters (h : mp.Partition free out) (total left : UInt64) :
    Partition { mp with mpTotalSizeKb := total, mpLeftSizeKb := left } free out :=
  ⟨h.linked, h.nodup, h.listed, h.handedOut, h.covered⟩

theorem HasKeys.setHead (h : mp.HasKeys) (p : Option Nat) : (mp.setHead index p).HasKeys := by
  intro index' hindex'
  simp only [Mempool.setHead, Function.update_apply]
  split
  · rfl
  · exact h index' hindex'

/-- A new chunk is handed out. -/
theorem Partition.create (h : mp.Partition free out) (hhead : mp.head index = none)
    (hindex : index ∈ memCaps) (block : Int → UInt8) :
    ((mp.setHead index none).newChunk index block).Partition free
      fun b ↦ out b ∨ b = mp.created := by
  have old {b : Nat} (hb : b < mp.created) :
      ((mp.setHead index none).newChunk index block).chunks b = mp.chunks b :=
    Function.update_of_ne (Nat.ne_of_lt hb) ..
  have created : ((mp.setHead index none).newChunk index block).chunks mp.created =
      .new index block := Function.update_self ..
  have head (index' : Int) :
      ((mp.setHead index none).newChunk index block).head index' = mp.head index' := by
    by_cases hne : index' = index
    · rw [hne, hhead]
      exact head_setHead_self none
    · exact head_setHead_of_ne hne none
  refine ⟨fun index' ↦ ?_, h.nodup, fun index' b hb ↦ ?_, fun b hb ↦ ?_, fun b hb ↦ ?_⟩
  · rw [head]
    exact (h.linked index').congr fun b hb ↦
      congrArg Chunk.next (old (h.listed index' b hb).1)
  · obtain ⟨hlt, hout, hrest⟩ := h.listed index' b hb
    rw [old hlt]
    exact ⟨Nat.lt_succ_of_lt hlt, by rintro (hb | rfl) <;> [exact hout hb; omega], hrest⟩
  · rcases hb with hb | rfl
    · obtain ⟨hlt, hcap⟩ := h.handedOut b hb
      rw [old hlt]
      exact ⟨Nat.lt_succ_of_lt hlt, hcap⟩
    · rw [created]
      exact ⟨Nat.lt_succ_self _, hindex⟩
  · by_cases hlt : b < mp.created
    · rw [old hlt]
      exact (h.covered b hlt).imp_left Or.inl
    · exact Or.inl (Or.inr (by change b < mp.created + 1 at hb; omega))

/-- The first chunk of a list is handed out. -/
theorem Partition.take (h : mp.Partition free out) (hhead : mp.head index = some a)
    (hindex : index ∈ memCaps) :
    ¬ out a ∧ ∃ rest, free index = a :: rest ∧ ((mp.setHead index (mp.chunks a).next).modify a
      fun c ↦ { c with next := none }).Partition (Function.update free index rest)
        fun b ↦ out b ∨ b = a := by
  obtain ⟨rest, hfree, hrest⟩ : ∃ rest, free index = a :: rest ∧
      Linked mp.next (mp.next a) rest := (hhead ▸ h.linked index).of_some
  obtain ⟨hlt, hout, hcap, hlen, hhd⟩ := h.listed index a (by rw [hfree]; exact List.mem_cons_self)
  have hnodup := h.nodup index
  rw [hfree, List.nodup_cons] at hnodup
  have free_sub {index' b} (hb : b ∈ Function.update free index rest index') :
      b ∈ free index' ∧ b ≠ a := by
    by_cases hne : index' = index
    · subst hne
      rw [Function.update_self] at hb
      refine ⟨by rw [hfree]; exact List.mem_cons_of_mem a hb, ?_⟩
      rintro rfl
      exact hnodup.1 hb
    · rw [Function.update_of_ne hne] at hb
      refine ⟨hb, ?_⟩
      rintro rfl
      exact hne ((h.listed index' b hb).2.2.1.symm.trans hcap)
  have other {b : Nat} (hb : b ≠ a) (p : Option Nat) (f : Chunk → Chunk) :
      ((mp.setHead index p).modify a f).chunks b = mp.chunks b := chunks_modify_of_ne hb f
  refine ⟨hout, rest, hfree, fun index' ↦ ?_, fun index' ↦ ?_, fun index' b hb ↦ ?_,
    fun b hb ↦ ?_, fun b hb ↦ ?_⟩
  · have hlinked : Linked mp.next ((mp.setHead index (mp.chunks a).next).head index')
        (Function.update free index rest index') := by
      by_cases hne : index' = index
      · subst hne
        rw [head_setHead_self, Function.update_self]
        exact hrest
      · rw [head_setHead_of_ne hne, Function.update_of_ne hne]
        exact h.linked index'
    exact hlinked.congr fun b hb ↦ congrArg Chunk.next (other (free_sub hb).2 _ _)
  · by_cases hne : index' = index
    · rw [hne, Function.update_self]
      exact hnodup.2
    · rw [Function.update_of_ne hne]
      exact h.nodup index'
  · obtain ⟨hmem, hba⟩ := free_sub hb
    obtain ⟨hblt, hbout, hbrest⟩ := h.listed index' b hmem
    rw [other hba]
    exact ⟨hblt, fun hor ↦ hor.elim hbout hba, hbrest⟩
  · by_cases hba : b = a
    · rw [hba, chunks_modify_self]
      refine ⟨hlt, ?_⟩
      change (mp.chunks a).capacity ∈ memCaps
      rw [hcap]
      exact hindex
    · rw [other hba]
      exact h.handedOut b (hb.resolve_right hba)
  · by_cases hba : b = a
    · exact Or.inl (Or.inr hba)
    · rw [other hba]
      refine (h.covered b hb).imp Or.inl fun hmem ↦ ?_
      by_cases hne : (mp.chunks b).capacity = index
      · rw [hne, Function.update_self]
        rw [hne, hfree] at hmem
        exact (List.mem_cons.mp hmem).resolve_left hba
      · rwa [Function.update_of_ne hne]

/-- Chunk `a` of class `index` comes from the front of its list or is new, and the counters
follow. -/
inductive Obtained (mp mp' : Mempool) (free free' : Int → List Nat) (a : Nat) (index : Int) : Prop
  | listed (rest : List Nat) (front : free index = a :: rest)
      (lists : free' = Function.update free index rest)
      (total : mp'.mpTotalSizeKb = mp.mpTotalSizeKb)
      (left : mp'.mpLeftSizeKb = mp.mpLeftSizeKb - sizeKb index)
  | created (lists : free' = free) (limit : ¬ maxPoolSize ≤ mp.mpTotalSizeKb + sizeKb index)
      (total : mp'.mpTotalSizeKb = mp.mpTotalSizeKb + sizeKb index)
      (left : mp'.mpLeftSizeKb = mp.mpLeftSizeKb)

/-- What `alloc_chunk` returns: the null pointer and no change, or a chunk that nobody had. -/
theorem Partition.allocChunk (h : mp.Partition free out) (keys : mp.HasKeys) {n : Int}
    {newOk : Bool} {block : Int → UInt8} {p : Option Nat}
    (halloc : mp.allocChunk n newOk block = .ok (p, mp')) :
    (p = none ∧ findClass n = none ∧ mp' = mp) ∨ ∃ a free', p = some a ∧ ¬ out a ∧
      mp'.Partition free' (fun b ↦ out b ∨ b = a) ∧ mp'.HasKeys ∧
      findClass n = some (mp'.chunks a).capacity ∧ (mp'.chunks a).length = 0 ∧
      (mp'.chunks a).head = 0 ∧ (mp'.chunks a).next = none ∧
      (∀ b ≠ a, mp'.chunks b = mp.chunks b) ∧
      Obtained mp mp' free free' a (mp'.chunks a).capacity := by
  unfold Mempool.allocChunk at halloc
  split at halloc
  · next hclass =>
    cases halloc
    exact Or.inl ⟨rfl, hclass, rfl⟩
  · next index hclass =>
    refine Or.inr ?_
    split at halloc
    · next hhead =>
      split at halloc
      · cases halloc
      · next hlimit =>
        split at halloc
        · cases halloc
        · cases halloc
          have hfresh : ¬ out mp.created := fun ho ↦
            Nat.lt_irrefl _ (h.handedOut _ ho).1
          have hnew : ((mp.setHead index none).newChunk index block).chunks mp.created =
              .new index block := Function.update_self ..
          refine ⟨mp.created, free, rfl, hfresh,
            (h.create hhead (findClass_eq_some hclass).1 block).counters _ _,
            keys.setHead none, ?_, ?_, ?_, ?_, fun b hb ↦ Function.update_of_ne hb .., ?_⟩
          all_goals dsimp only
          all_goals rw [hnew]
          · exact hclass
          · rfl
          · rfl
          · rfl
          · exact .created rfl hlimit rfl rfl
    · next target hhead =>
      cases halloc
      obtain ⟨hout, rest, hfree, hpart⟩ := h.take hhead (findClass_eq_some hclass).1
      obtain ⟨-, -, hcap, hlen, hhd⟩ :=
        h.listed index target (by rw [hfree]; exact List.mem_cons_self)
      refine ⟨target, _, rfl, hout, hpart.counters _ _, keys.setHead _, ?_, ?_, ?_, ?_,
        fun b hb ↦ Function.update_of_ne hb .., ?_⟩
      all_goals dsimp only
      all_goals rw [chunks_modify_self]
      · exact hclass.trans (congrArg some hcap.symm)
      · exact hlen
      · exact hhd
      · change Obtained _ _ _ _ _ (mp.chunks target).capacity
        rw [hcap]
        exact .listed rest hfree rfl rfl rfl

/-- `alloc_chunk` ends the process only through `exit`: at the limit or without memory. -/
theorem halt_of_allocChunk {n : Int} {newOk : Bool} {block : Int → UInt8} {hr : Halt}
    (halloc : mp.allocChunk n newOk block = .error hr) :
    hr = .exit ∧ ∃ index, findClass n = some index ∧ mp.head index = none ∧
      (maxPoolSize ≤ mp.mpTotalSizeKb + sizeKb index ∨ newOk = false) := by
  unfold Mempool.allocChunk at halloc
  split at halloc
  · cases halloc
  · next index hclass =>
    split at halloc
    · next hhead =>
      split at halloc
      · next hlimit =>
        cases halloc
        exact ⟨rfl, index, hclass, hhead, Or.inl hlimit⟩
      · split at halloc
        · next hnew =>
          cases halloc
          exact ⟨rfl, index, hclass, hhead, Or.inr hnew⟩
        · cases halloc
    · cases halloc

/-! ### retrieve -/

/-- A chunk that is handed out goes in front of the list of its class. -/
theorem Partition.giveBack (h : mp.Partition free out) (ha : out a) :
    ((mp.modify a fun c ↦ { c.reset with next := mp.head (mp.chunks a).capacity }).setHead
      (mp.chunks a).capacity (some a)).Partition
        (Function.update free (mp.chunks a).capacity (a :: free (mp.chunks a).capacity))
        fun b ↦ out b ∧ b ≠ a := by
  obtain ⟨hlt, hcap⟩ := h.handedOut a ha
  have hnot (index' : Int) : a ∉ free index' := fun hmem ↦ h.ne_of_mem ha hmem rfl
  generalize hindex : (mp.chunks a).capacity = index
  have other {b : Nat} (hb : b ≠ a) (p : Option Nat) (f : Chunk → Chunk) :
      ((mp.modify a f).setHead index p).chunks b = mp.chunks b := chunks_modify_of_ne hb f
  have self (p : Option Nat) (f : Chunk → Chunk) :
      ((mp.modify a f).setHead index p).chunks a = f (mp.chunks a) := chunks_modify_self f
  refine ⟨fun index' ↦ ?_, fun index' ↦ ?_, fun index' b hb ↦ ?_, fun b hb ↦ ?_, fun b hb ↦ ?_⟩
  · by_cases hne : index' = index
    · subst hne
      rw [head_setHead_self, Function.update_self]
      refine (h.linked index').push (congrArg Chunk.next (self _ _)) fun b hb ↦ ?_
      exact congrArg Chunk.next (other (h.ne_of_mem ha hb) _ _)
    · rw [head_setHead_of_ne hne, Function.update_of_ne hne]
      exact (h.linked index').congr fun b hb ↦
        congrArg Chunk.next (other (h.ne_of_mem ha hb) _ _)
  · by_cases hne : index' = index
    · rw [hne, Function.update_self]
      exact List.nodup_cons.mpr ⟨hnot index, h.nodup index⟩
    · rw [Function.update_of_ne hne]
      exact h.nodup index'
  · have hold : b = a ∧ index' = index ∨ b ∈ free index' := by
      by_cases hne : index' = index
      · rw [hne, Function.update_self] at hb
        exact (List.mem_cons.mp hb).imp (fun hba ↦ ⟨hba, hne⟩) (fun hmem ↦ hne ▸ hmem)
      · rw [Function.update_of_ne hne] at hb
        exact Or.inr hb
    rcases hold with ⟨rfl, rfl⟩ | hmem
    · rw [self]
      exact ⟨hlt, fun hand ↦ hand.2 rfl, hindex, rfl, rfl⟩
    · obtain ⟨hblt, hbout, hbrest⟩ := h.listed index' b hmem
      rw [other (h.ne_of_mem ha hmem)]
      exact ⟨hblt, fun hand ↦ hbout hand.1, hbrest⟩
  · rw [other hb.2]
    exact h.handedOut b hb.1
  · by_cases hba : b = a
    · subst hba
      rw [self]
      refine Or.inr ?_
      change b ∈ Function.update free index (b :: free index) (mp.chunks b).capacity
      rw [hindex, Function.update_self]
      exact List.mem_cons_self
    · rw [other hba]
      refine (h.covered b hb).imp (fun hout ↦ ⟨hout, hba⟩) fun hmem ↦ ?_
      by_cases hne : (mp.chunks b).capacity = index
      · rw [hne, Function.update_self]
        exact List.mem_cons_of_mem a (hne ▸ hmem)
      · rwa [Function.update_of_ne hne]

/-- `retrieve` takes a chunk back from its holder. -/
theorem Partition.retrieve (h : mp.Partition free out) (keys : mp.HasKeys) (ha : out a) :
    ∃ mp', mp.retrieve a = .ok mp' ∧ mp'.Partition
        (Function.update free (mp.chunks a).capacity (a :: free (mp.chunks a).capacity))
        (fun b ↦ out b ∧ b ≠ a) ∧
      mp'.HasKeys ∧ (∀ b ≠ a, mp'.chunks b = mp.chunks b) ∧
      mp'.mpTotalSizeKb = mp.mpTotalSizeKb ∧
      mp'.mpLeftSizeKb = mp.mpLeftSizeKb + sizeKb (mp.chunks a).capacity := by
  obtain ⟨p, hp⟩ := Option.isSome_iff_exists.mp (keys _ (h.handedOut a ha).2)
  have hhead : mp.head (mp.chunks a).capacity = p := by rw [head, hp, Option.join_some]
  have hpart := h.giveBack ha
  rw [hhead] at hpart
  unfold Mempool.retrieve
  simp only [hp]
  exact ⟨_, rfl, hpart.counters _ _, HasKeys.setHead (show (mp.modify a _).HasKeys from keys) _,
    fun b hb ↦ Function.update_of_ne hb .., rfl, rfl⟩

/-! ### The constructor -/

/-- A chunk as the pool hands it out. -/
def Blank (size : Int) (c : Chunk) : Prop := c.capacity = size ∧ c.length = 0 ∧ c.head = 0

/-- The loop of `mem_init` hangs new chunks behind `prev` and touches no other. -/
theorem memInitLoop_spec {size : Int} {block : Nat → Int → UInt8} {n prev : Nat}
    (hprev : prev < mp.created) (blank : Blank size (mp.chunks prev))
    (last : mp.next prev = none) :
    (memInitLoop size block n prev mp).created = mp.created + n ∧
      (memInitLoop size block n prev mp).mpPool = mp.mpPool ∧
      Linked (memInitLoop size block n prev mp).next (some prev)
        (prev :: List.range' mp.created n) ∧
      (∀ b ∈ prev :: List.range' mp.created n,
        Blank size ((memInitLoop size block n prev mp).chunks b)) ∧
      ∀ b < mp.created, b ≠ prev → (memInitLoop size block n prev mp).chunks b = mp.chunks b := by
  induction n generalizing mp prev with
  | zero =>
    refine ⟨rfl, rfl, ⟨rfl, last⟩, fun b hb ↦ ?_, fun _ _ _ ↦ rfl⟩
    obtain rfl : b = prev := by simpa using hb
    exact blank
  | succ n ih =>
    rw [memInitLoop]
    generalize hmp₁ : (mp.newChunk size (block mp.created)).modify prev
      (fun c ↦ { c with next := some mp.created }) = mp₁
    have hcreated : mp₁.created = mp.created + 1 := by rw [← hmp₁]; rfl
    have hpool : mp₁.mpPool = mp.mpPool := by rw [← hmp₁]; rfl
    have hnew : mp₁.chunks mp.created = .new size (block mp.created) := by
      rw [← hmp₁, chunks_modify_of_ne (by omega), chunks_newChunk_self]
    have hself : mp₁.chunks prev = { mp.chunks prev with next := some mp.created } := by
      rw [← hmp₁, chunks_modify_self, chunks_newChunk_of_ne (by omega)]
    have hold {b : Nat} (hb : b < mp.created) (hne : b ≠ prev) : mp₁.chunks b = mp.chunks b := by
      rw [← hmp₁, chunks_modify_of_ne hne, chunks_newChunk_of_ne (by omega)]
    obtain ⟨ihcreated, ihpool, ihlinked, ihblank, ihold⟩ := @ih mp₁ mp.created
      (by omega) (by rw [hnew]; exact ⟨rfl, rfl, rfl⟩) (by rw [next, hnew]; rfl)
    rw [hcreated] at ihcreated ihlinked ihblank ihold
    have hprev' := (ihold prev (by omega) (by omega)).trans hself
    rw [List.range'_succ]
    refine ⟨by omega, ihpool.trans hpool, ⟨rfl, ?_⟩, fun b hb ↦ ?_, fun b hb hne ↦ ?_⟩
    · rw [next, hprev']
      exact ihlinked
    · rcases List.mem_cons.mp hb with rfl | hb
      · rw [hprev']
        exact blank
      · exact ihblank b hb
    · exact (ihold b (by omega) (by omega)).trans (hold hb hne)

/-- `mem_init` fills the list of a class that had none. -/
theorem Partition.memInit (h : mp.Partition free out) {size : Int} (none_ : mp.mpPool size = none)
    {chunkNum : Nat} (pos : 0 < chunkNum) (block : Nat → Int → UInt8) :
    ((mp.memInit size chunkNum block).Partition
        (Function.update free size (List.range' mp.created chunkNum)) out) ∧
      (mp.memInit size chunkNum block).mpPool =
        Function.update mp.mpPool size (some (some mp.created)) := by
  obtain ⟨n, rfl⟩ := Nat.exists_eq_succ_of_ne_zero (Nat.ne_of_gt pos)
  rw [Nat.succ_eq_add_one]
  generalize hmp₁ : (mp.newChunk size (block mp.created)).setHead size (some mp.created) = mp₁
  have hcreated : mp₁.created = mp.created + 1 := by rw [← hmp₁]; rfl
  have hpool : mp₁.mpPool = Function.update mp.mpPool size (some (some mp.created)) := by
    rw [← hmp₁]; rfl
  have hnew : mp₁.chunks mp.created = .new size (block mp.created) := by
    rw [← hmp₁]
    exact chunks_newChunk_self
  have hold {b : Nat} (hb : b < mp.created) : mp₁.chunks b = mp.chunks b := by
    rw [← hmp₁]
    exact chunks_newChunk_of_ne (Nat.ne_of_lt hb)
  obtain ⟨hcreated', hpool', hlinked, hblank, hold'⟩ :=
    @memInitLoop_spec mp₁ size block n mp.created
      (by omega) (by rw [hnew]; exact ⟨rfl, rfl, rfl⟩) (by rw [next, hnew]; rfl)
  rw [hcreated] at hcreated' hlinked hblank hold'
  rw [← List.range'_succ] at hlinked hblank
  simp only [Mempool.memInit, Nat.add_sub_cancel, hmp₁]
  generalize memInitLoop size block n mp.created mp₁ = mp₂ at *
  refine ⟨Partition.counters ?_ _ _, hpool'.trans hpool⟩
  have hfree : free size = [] := by
    have hlist := h.linked size
    rw [head, none_] at hlist
    exact hlist.of_none
  have head_of_ne {index : Int} (hne : index ≠ size) : mp₂.head index = mp.head index := by
    rw [head, hpool', hpool, Function.update_of_ne hne, head]
  have kept {b : Nat} (hb : b < mp.created) : mp₂.chunks b = mp.chunks b :=
    (hold' b (by omega) (by omega)).trans (hold hb)
  refine ⟨fun index ↦ ?_, fun index ↦ ?_, fun index b hb ↦ ?_, fun b hb ↦ ?_, fun b hb ↦ ?_⟩
  · by_cases hne : index = size
    · rw [hne, head, hpool', hpool, Function.update_self, Function.update_self]
      exact hlinked
    · rw [head_of_ne hne, Function.update_of_ne hne]
      exact (h.linked index).congr fun b hb ↦
        congrArg Chunk.next (kept (h.listed index b hb).1)
  · by_cases hne : index = size
    · rw [hne, Function.update_self]
      exact List.nodup_range'
    · rw [Function.update_of_ne hne]
      exact h.nodup index
  · by_cases hne : index = size
    · rw [hne, Function.update_self] at hb
      have hrange := List.mem_range'_1.mp hb
      refine ⟨by omega, fun hout ↦ ?_, hne ▸ hblank b hb⟩
      have := (h.handedOut b hout).1
      omega
    · rw [Function.update_of_ne hne] at hb
      obtain ⟨hlt, hrest⟩ := h.listed index b hb
      rw [kept hlt]
      exact ⟨by omega, hrest⟩
  · obtain ⟨hlt, hcap⟩ := h.handedOut b hb
    rw [kept hlt]
    exact ⟨by omega, hcap⟩
  · by_cases hlt : b < mp.created
    · rw [kept hlt]
      refine (h.covered b hlt).imp_right fun hmem ↦ ?_
      by_cases hne : (mp.chunks b).capacity = size
      · rw [hne, hfree] at hmem
        cases hmem
      · rwa [Function.update_of_ne hne]
    · have hmem : b ∈ List.range' mp.created (n + 1) := List.mem_range'_1.mpr (by omega)
      rw [(hblank b hmem).1, Function.update_self]
      exact Or.inr hmem

/-- Before the constructor there are no chunks. -/
theorem partition_empty : empty.Partition (fun _ ↦ []) fun _ ↦ False where
  linked _ := rfl
  nodup _ := List.nodup_nil
  listed _ _ h := nomatch h
  handedOut _ h := h.elim
  covered _ h := nomatch h

/-- The number of chunks of a class that the constructor asks for. -/
def chunkNums (index : Int) : Nat :=
  if index = 4194304 then 10 else if index = 1048576 then 25 else if index = 262144 then 100
  else if index = 65536 then 250 else if index = 16384 then 500 else if index = 4096 then 2000
  else 0

/-- A constructed pool has all its chunks on its six lists. -/
theorem partition_new (block : Nat → Int → UInt8) :
    ∃ free, (new block).Partition free (fun _ ↦ False) ∧ (new block).HasKeys ∧
      ∀ index, (free index).length = chunkNums index := by
  unfold new
  extract_lets mp1 mp2 mp3 mp4 mp5 mp6
  obtain ⟨h1, p1⟩ : mp1.Partition _ _ ∧ _ := partition_empty.memInit rfl (by decide) block
  obtain ⟨h2, p2⟩ : mp2.Partition _ _ ∧ _ := h1.memInit (by rw [p1]; rfl) (by decide) block
  obtain ⟨h3, p3⟩ : mp3.Partition _ _ ∧ _ :=
    h2.memInit (by rw [p2, p1]; rfl) (by decide) block
  obtain ⟨h4, p4⟩ : mp4.Partition _ _ ∧ _ :=
    h3.memInit (by rw [p3, p2, p1]; rfl) (by decide) block
  obtain ⟨h5, p5⟩ : mp5.Partition _ _ ∧ _ :=
    h4.memInit (by rw [p4, p3, p2, p1]; rfl) (by decide) block
  obtain ⟨h6, p6⟩ : mp6.Partition _ _ ∧ _ :=
    h5.memInit (by rw [p5, p4, p3, p2, p1]; rfl) (by decide) block
  refine ⟨_, h6.counters _ _, fun index hindex ↦ ?_, fun index ↦ ?_⟩
  · change (mp6.mpPool index).isSome
    rw [p6, p5, p4, p3, p2, p1]
    simp only [memCaps, List.mem_cons, List.not_mem_nil, or_false] at hindex
    rcases hindex with rfl | rfl | rfl | rfl | rfl | rfl <;> rfl
  · simp only [Function.update_apply, apply_ite List.length, List.length_range', List.length_nil,
      chunkNums]

theorem mpTotalSizeKb_memInitLoop {size : Int} {block : Nat → Int → UInt8} (n prev : Nat) :
    (memInitLoop size block n prev mp).mpTotalSizeKb = mp.mpTotalSizeKb := by
  induction n generalizing mp prev with
  | zero => rfl
  | succ n ih => exact ih _

theorem mpTotalSizeKb_memInit {size : Int} {chunkNum : Nat} {block : Nat → Int → UInt8} :
    (mp.memInit size chunkNum block).mpTotalSizeKb =
      mp.mpTotalSizeKb + sizeKb size * .ofNat chunkNum :=
  congrArg (· + sizeKb size * UInt64.ofNat chunkNum) (mpTotalSizeKb_memInitLoop ..)

/-- The constructor counts 124160 KiB, and all of them as left. -/
theorem counters_new (block : Nat → Int → UInt8) :
    (new block).mpTotalSizeKb = 124160 ∧ (new block).mpLeftSizeKb = 124160 := by
  have htotal : (new block).mpTotalSizeKb = 124160 := by
    simp only [new, mpTotalSizeKb_memInit]
    rfl
  exact ⟨htotal, htotal⟩

end Mempool

end ConcurrentServer.Memory
