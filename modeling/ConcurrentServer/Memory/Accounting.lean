import ConcurrentServer.Base.Run
import ConcurrentServer.Memory.Mempool
import Mathlib.Algebra.Order.BigOperators.Group.List

/-!
# The accounts of the pool

`src/memory/mem_pool.h`, `src/memory/mem_pool.cpp`. The pool and its clients: the two counters
against the lists and the chunks handed out, over every history of `alloc_chunk` and `retrieve`.
-/

namespace ConcurrentServer.Memory
open ConcurrentServer.Base

/-- The pool and the chunks that its clients have. -/
structure PoolState where
  pool : Mempool
  out : List Nat

/-- What a client does. -/
inductive PoolAction
  /-- `alloc_chunk(n)`, with what `new` would find. -/
  | alloc (n : Int) (newOk : Bool) (block : Int → UInt8)
  /-- `retrieve` of a chunk that was handed out. -/
  | retrieve (a : Nat)
  /-- The holder of a chunk changes its fields. -/
  | change (a : Nat) (length head : Int) (data : Int → UInt8)

namespace PoolState

/-- The step function; the run ends where the process does. -/
def step (s : PoolState) : PoolAction → Option PoolState
  | .alloc n newOk block =>
    match s.pool.allocChunk n newOk block with
    | .ok (p, pool) => some ⟨pool, p.toList ++ s.out⟩
    | .error _ => none
  | .retrieve a =>
    if a ∈ s.out then
      match s.pool.retrieve a with
      | .ok pool => some ⟨pool, s.out.erase a⟩
      | .error _ => none
    else none
  | .change a length head data =>
    if a ∈ s.out then
      some { s with
        pool := s.pool.modify a fun c ↦ { c with length := length, head := head, data := data } }
    else none

/-- The constructed pool. -/
def init (block : Nat → Int → UInt8) : PoolState := ⟨.new block, []⟩

end PoolState

namespace Mempool

/-- What the chunks of a list count for. -/
def kb (mp : Mempool) (l : List Nat) : Int := (l.map fun a ↦ (mp.chunks a).capacity / 1024).sum

/-- What the lists of all classes count for. -/
def listsKb (mp : Mempool) (free : Int → List Nat) : Int :=
  (memCaps.map fun index ↦ mp.kb (free index)).sum

end Mempool

/-- The counters agree with the lists, which are `free`, and with what is handed out. -/
structure PoolState.Balanced (s : PoolState) (free : Int → List Nat) : Prop where
  lists : ∀ index, Linked s.pool.next (s.pool.head index) (free index)
  classes : ∀ index ∉ memCaps, free index = []
  blank : ∀ index, ∀ a ∈ free index, Mempool.Blank index (s.pool.chunks a)
  left : (s.pool.mpLeftSizeKb.toNat : Int) = s.pool.listsKb free
  total : (s.pool.mpTotalSizeKb.toNat : Int) = s.pool.mpLeftSizeKb.toNat + s.pool.kb s.out
  limit : s.pool.mpTotalSizeKb < maxPoolSize

/-- What `alloc_chunk(n)` may do: return null exactly beyond the largest class, and else exit or
return a blank chunk of the smallest class that nobody has. -/
def PoolState.AllocMeets (s : PoolState) (n : Int) (newOk : Bool) :
    Except Halt (Option Nat × Mempool) → Prop
  | .ok (none, pool) => 4194304 < n ∧ pool = s.pool
  | .ok (some a, pool) => n ≤ 4194304 ∧ a ∉ s.out ∧
    (∃ index ∈ memCaps, n ≤ index ∧ (∀ index' ∈ memCaps, n ≤ index' → index ≤ index') ∧
      Mempool.Blank index (pool.chunks a)) ∧
    (pool.chunks a).next = none ∧
    ∃ free, PoolState.Balanced ⟨pool, a :: s.out⟩ free ∧ ∀ index, a ∉ free index
  | .error h => n ≤ 4194304 ∧ h = .exit ∧ ∃ index ∈ memCaps, n ≤ index ∧
    s.pool.head index = none ∧
      (maxPoolSize ≤ s.pool.mpTotalSizeKb + sizeKb index ∨ newOk = false)

namespace Mempool

variable {mp mp' : Mempool} {free free' : Int → List Nat} {out : List Nat} {a : Nat}
  {index n : Int}

/-! ### Sums -/

theorem kb_cons (l : List Nat) : mp.kb (a :: l) = (mp.chunks a).capacity / 1024 + mp.kb l := by
  rw [kb, List.map_cons, List.sum_cons, kb]

/-- Sums read capacities only. -/
theorem kb_congr {l : List Nat}
    (same : ∀ b ∈ l, (mp'.chunks b).capacity = (mp.chunks b).capacity) : mp'.kb l = mp.kb l := by
  rw [kb, kb]
  exact congrArg List.sum (List.map_congr_left fun b hb ↦ by rw [same b hb])

theorem kb_erase (ha : a ∈ out) :
    mp.kb out = (mp.chunks a).capacity / 1024 + mp.kb (out.erase a) := by
  rw [← kb_cons]
  exact ((List.perm_cons_erase ha).map _).sum_eq

theorem kb_nonneg {l : List Nat} (h : ∀ b ∈ l, 0 ≤ (mp.chunks b).capacity) : 0 ≤ mp.kb l := by
  refine List.sum_nonneg fun x hx ↦ ?_
  obtain ⟨b, hb, rfl⟩ := List.mem_map.mp hx
  have := h b hb
  omega

/-- The classes are positive and at most 4 MiB. -/
theorem memCaps_range (h : index ∈ memCaps) : 4096 ≤ index ∧ index ≤ 4194304 := by
  simp only [memCaps, List.mem_cons, List.not_mem_nil, or_false] at h
  omega

/-- One term of a sum over the classes changes. -/
theorem sum_update (F : Int → Int) (h : index ∈ memCaps) (v : Int) :
    (memCaps.map (Function.update F index v)).sum = (memCaps.map F).sum - F index + v := by
  simp only [memCaps, List.mem_cons, List.not_mem_nil, or_false] at h
  rcases h with rfl | rfl | rfl | rfl | rfl | rfl <;>
    simp [memCaps, Function.update] <;> omega

/-- The list of one class changes. -/
theorem listsKb_update (h : index ∈ memCaps) (l : List Nat) :
    mp.listsKb (Function.update free index l) = mp.listsKb free - mp.kb (free index) + mp.kb l := by
  rw [listsKb, listsKb, ← sum_update (fun index ↦ mp.kb (free index)) h]
  refine congrArg List.sum (List.map_congr_left fun index' _ ↦ ?_)
  rw [Function.update_apply, Function.update_apply]
  split <;> rfl

theorem listsKb_congr (same : ∀ index, ∀ b ∈ free index,
    (mp'.chunks b).capacity = (mp.chunks b).capacity) : mp'.listsKb free = mp.listsKb free :=
  congrArg List.sum (List.map_congr_left fun index _ ↦ kb_congr (same index))

/-- What the lists have counts for something. -/
theorem Partition.listsKb_nonneg {held : Nat → Prop} (h : mp.Partition free held) :
    0 ≤ mp.listsKb free := by
  refine List.sum_nonneg fun x hx ↦ ?_
  obtain ⟨index, hindex, rfl⟩ := List.mem_map.mp hx
  refine kb_nonneg fun b hb ↦ ?_
  have := memCaps_range hindex
  rw [(h.listed index b hb).2.2.1]
  omega

/-- The counters count in whole KiB. -/
theorem toNat_sizeKb (h : index ∈ memCaps) : ((sizeKb index).toNat : Int) = index / 1024 := by
  simp only [memCaps, List.mem_cons, List.not_mem_nil, or_false] at h
  rcases h with rfl | rfl | rfl | rfl | rfl | rfl <;> rfl

end Mempool

/-! ### The invariant -/

namespace PoolState

variable {s t : PoolState} {free : Int → List Nat} {a : Nat} {n : Int} {newOk : Bool}
  {block : Int → UInt8}

/-- The chunks are where lists and clients have them, and the counters agree. -/
structure Accounts (s : PoolState) (free : Int → List Nat) : Prop where
  part : s.pool.Partition free (· ∈ s.out)
  nodup : s.out.Nodup
  keys : s.pool.HasKeys
  classes : ∀ index ∉ memCaps, free index = []
  left : (s.pool.mpLeftSizeKb.toNat : Int) = s.pool.listsKb free
  total : (s.pool.mpTotalSizeKb.toNat : Int) = s.pool.mpLeftSizeKb.toNat + s.pool.kb s.out
  limit : s.pool.mpTotalSizeKb < maxPoolSize

theorem Accounts.balanced (h : s.Accounts free) : s.Balanced free where
  lists := h.part.linked
  classes := h.classes
  blank index a ha := (h.part.listed index a ha).2.2
  left := h.left
  total := h.total
  limit := h.limit

/-- Every chunk in use has the capacity of a class. -/
theorem Accounts.capacity_mem (h : s.Accounts free) {index : Int} (ha : a ∈ free index) :
    (s.pool.chunks a).capacity = index ∧ index ∈ memCaps := by
  refine ⟨(h.part.listed index a ha).2.2.1, ?_⟩
  by_contra hindex
  rw [h.classes index hindex] at ha
  cases ha

theorem Accounts.limit_toNat (h : s.Accounts free) : s.pool.mpTotalSizeKb.toNat < 4194304 :=
  UInt64.lt_iff_toNat_lt.mp h.limit

/-- The counters follow a chunk that is handed out. -/
theorem Accounts.obtained (h : s.Accounts free) {pool : Mempool} {free' : Int → List Nat}
    {index : Int} (hindex : index ∈ memCaps)
    (hobtained : Mempool.Obtained s.pool pool free free' a index)
    (nonneg : 0 ≤ s.pool.listsKb free') :
    (∀ index ∉ memCaps, free' index = []) ∧
      (pool.mpLeftSizeKb.toNat : Int) = s.pool.listsKb free' ∧
      (pool.mpTotalSizeKb.toNat : Int) =
        pool.mpLeftSizeKb.toNat + (index / 1024 + s.pool.kb s.out) ∧
      pool.mpTotalSizeKb < maxPoolSize := by
  have hsize := Mempool.toNat_sizeKb hindex
  have hrange := Mempool.memCaps_range hindex
  have hlimit := h.limit_toNat
  have hleft := h.left
  have htotal := h.total
  cases hobtained with
  | listed rest front lists total left =>
    have hrest : s.pool.listsKb free' = s.pool.listsKb free - index / 1024 := by
      have hcap := (h.capacity_mem (by rw [front]; exact List.mem_cons_self)).1
      rw [lists, Mempool.listsKb_update hindex, front, Mempool.kb_cons, hcap]
      omega
    have hle : sizeKb index ≤ s.pool.mpLeftSizeKb := UInt64.le_iff_toNat_le.mpr (by omega)
    have hsub := UInt64.toNat_sub_of_le _ _ hle
    rw [← left] at hsub
    rw [total]
    refine ⟨fun index' hindex' ↦ ?_, by omega, by omega, h.limit⟩
    have hne : index' ≠ index := by
      rintro rfl
      exact hindex' hindex
    rw [lists, Function.update_of_ne hne]
    exact h.classes index' hindex'
  | created lists limit total left =>
    have hlt := UInt64.lt_iff_toNat_lt.mp (UInt64.not_le.mp limit)
    have hadd := UInt64.toNat_add s.pool.mpTotalSizeKb (sizeKb index)
    rw [Nat.mod_eq_of_lt (by omega), ← total] at hadd
    rw [lists, left]
    refine ⟨h.classes, hleft, by omega, ?_⟩
    rw [total]
    exact UInt64.not_le.mp limit

/-- `alloc_chunk` keeps the accounts. -/
theorem Accounts.alloc (h : s.Accounts free) {pool : Mempool}
    (halloc : s.pool.allocChunk n newOk block = .ok (some a, pool)) :
    a ∉ s.out ∧ Mempool.findClass n = some (pool.chunks a).capacity ∧
      (pool.chunks a).length = 0 ∧ (pool.chunks a).head = 0 ∧ (pool.chunks a).next = none ∧
      ∃ free', Accounts ⟨pool, a :: s.out⟩ free' ∧ ∀ index, a ∉ free' index := by
  rcases h.part.allocChunk h.keys halloc with ⟨hnone, -⟩ |
    ⟨a', free', ha', hout, hpart, hkeys, hclass, hlen, hhead, hnext, hframe, hobtained⟩
  · cases hnone
  obtain rfl := Option.some.inj ha'
  refine ⟨hout, hclass, hlen, hhead, hnext, free', ?_, fun index hmem ↦
    (hpart.listed index a hmem).2.1 (Or.inr rfl)⟩
  have hout' : pool.kb s.out = s.pool.kb s.out := Mempool.kb_congr fun b hb ↦ by
    rw [hframe b (by rintro rfl; exact hout hb)]
  have hlists : pool.listsKb free' = s.pool.listsKb free' :=
    Mempool.listsKb_congr fun index' b hb ↦ by
      rw [hframe b (by rintro rfl; exact (hpart.listed index' b hb).2.1 (Or.inr rfl))]
  have hnonneg := hpart.listsKb_nonneg
  rw [hlists] at hnonneg
  obtain ⟨hclasses, hleft, htotal, hlimit⟩ :=
    h.obtained (Mempool.findClass_eq_some hclass).1 hobtained hnonneg
  rw [← hlists] at hleft
  rw [← hout', ← Mempool.kb_cons] at htotal
  exact ⟨hpart.out_congr fun b ↦ by rw [List.mem_cons, or_comm],
    List.nodup_cons.mpr ⟨hout, h.nodup⟩, hkeys, hclasses, hleft, htotal, hlimit⟩

/-- `retrieve` keeps the accounts. -/
theorem Accounts.retrieve (h : s.Accounts free) (ha : a ∈ s.out) :
    ∃ pool free', s.pool.retrieve a = .ok pool ∧ Accounts ⟨pool, s.out.erase a⟩ free' := by
  obtain ⟨pool, hret, hpart, hkeys, hframe, total, left⟩ := h.part.retrieve h.keys ha
  have hindex := (h.part.handedOut a ha).2
  have hcap : (pool.chunks a).capacity = (s.pool.chunks a).capacity :=
    (hpart.listed _ a (by rw [Function.update_self]; exact List.mem_cons_self)).2.2.1
  have hlists : s.pool.listsKb (Function.update free (s.pool.chunks a).capacity
      (a :: free (s.pool.chunks a).capacity)) = _ := Mempool.listsKb_update hindex _
  have hclasses : ∀ index ∉ memCaps, Function.update free (s.pool.chunks a).capacity
      (a :: free (s.pool.chunks a).capacity) index = [] := fun index hout ↦ by
    rw [Function.update_of_ne (by rintro rfl; exact hout hindex)]
    exact h.classes index hout
  rw [Mempool.kb_cons] at hlists
  generalize Function.update free (s.pool.chunks a).capacity
    (a :: free (s.pool.chunks a).capacity) = free' at hpart hlists hclasses
  have same (b : Nat) : (pool.chunks b).capacity = (s.pool.chunks b).capacity := by
    by_cases hb : b = a
    · rw [hb, hcap]
    · rw [hframe b hb]
  have hlists' : pool.listsKb free' = s.pool.listsKb free' :=
    Mempool.listsKb_congr fun _ b _ ↦ same b
  have hkb : pool.kb (s.out.erase a) = s.pool.kb (s.out.erase a) :=
    Mempool.kb_congr fun b _ ↦ same b
  have herase : s.pool.kb s.out = _ := Mempool.kb_erase ha
  have hrest : 0 ≤ s.pool.kb (s.out.erase a) := Mempool.kb_nonneg fun b hb ↦ by
    have := Mempool.memCaps_range (h.part.handedOut b (List.mem_of_mem_erase hb)).2
    omega
  have hsize := Mempool.toNat_sizeKb hindex
  have hrange := Mempool.memCaps_range hindex
  have hlimit := h.limit_toNat
  have hleft := h.left
  have htotal := h.total
  have hadd := UInt64.toNat_add s.pool.mpLeftSizeKb (sizeKb (s.pool.chunks a).capacity)
  rw [Nat.mod_eq_of_lt (by omega), ← left] at hadd
  refine ⟨pool, free', hret, hpart.out_congr fun b ↦ ?_, h.nodup.erase a, hkeys, hclasses,
    ?_, ?_, ?_⟩
  · rw [h.nodup.mem_erase_iff, and_comm]
  · dsimp only
    omega
  · dsimp only
    rw [total]
    omega
  · dsimp only
    rw [total]
    exact h.limit

/-- A client's change of a chunk keeps the accounts. -/
theorem Accounts.change (h : s.Accounts free) (ha : a ∈ s.out) {f : Chunk → Chunk}
    (capacity : ∀ c, (f c).capacity = c.capacity) :
    Accounts { s with pool := s.pool.modify a f } free := by
  have same (b : Nat) : ((s.pool.modify a f).chunks b).capacity = (s.pool.chunks b).capacity := by
    by_cases hb : b = a
    · rw [hb, Mempool.chunks_modify_self, capacity]
    · rw [Mempool.chunks_modify_of_ne hb]
  refine ⟨h.part.modify ha (capacity _), h.nodup, h.keys, h.classes, ?_, ?_, h.limit⟩
  · exact h.left.trans (Mempool.listsKb_congr fun _ b _ ↦ same b).symm
  · have hkb : (s.pool.modify a f).kb s.out = s.pool.kb s.out :=
      Mempool.kb_congr fun b _ ↦ same b
    exact h.total.trans (by rw [hkb]; rfl)

/-- Every step keeps the accounts. -/
theorem Accounts.step (h : s.Accounts free) {x : PoolAction} (hstep : s.step x = some t) :
    ∃ free', t.Accounts free' := by
  cases x with
  | alloc n newOk block =>
    simp only [PoolState.step] at hstep
    split at hstep
    · next p pool halloc =>
      obtain rfl := Option.some.inj hstep
      cases p with
      | none =>
        rcases h.part.allocChunk h.keys halloc with ⟨-, -, rfl⟩ | ⟨a, _, hne, -⟩
        · exact ⟨free, h⟩
        · cases hne
      | some a =>
        obtain ⟨-, -, -, -, -, free', haccounts, -⟩ := h.alloc halloc
        exact ⟨free', haccounts⟩
    · cases hstep
  | retrieve a =>
    obtain ⟨ha, hstep⟩ := Option.ite_none_right_eq_some.mp hstep
    obtain ⟨pool, free', hret, haccounts⟩ := h.retrieve ha
    rw [hret] at hstep
    obtain rfl := Option.some.inj hstep
    exact ⟨free', haccounts⟩
  | change a length head data =>
    obtain ⟨ha, hstep⟩ := Option.ite_none_right_eq_some.mp hstep
    obtain rfl := Option.some.inj hstep
    exact ⟨free, h.change ha fun _ ↦ rfl⟩

/-- The constructed pool has all it counts on its lists. -/
theorem accounts_init (block : Nat → Int → UInt8) : ∃ free, (init block).Accounts free := by
  obtain ⟨free, hpart, hkeys, hlength⟩ := Mempool.partition_new block
  obtain ⟨htotal, hleft⟩ := Mempool.counters_new block
  have hkb (index : Int) : (init block).pool.kb (free index) =
      Mempool.chunkNums index * (index / 1024) := by
    rw [Mempool.kb, List.map_congr_left (g := fun _ ↦ index / 1024), List.map_const',
      List.sum_replicate, hlength, nsmul_eq_mul]
    intro b hb
    exact congrArg (· / 1024) (hpart.listed index b hb).2.2.1
  refine ⟨free, hpart.out_congr fun a ↦ ?_, List.nodup_nil, hkeys, fun index hindex ↦ ?_, ?_, ?_,
    ?_⟩
  · simp [init]
  · rw [← List.length_eq_zero_iff, hlength]
    simp only [memCaps, List.mem_cons, List.not_mem_nil, or_false, not_or] at hindex
    simp [Mempool.chunkNums, hindex]
  · rw [Mempool.listsKb, List.map_congr_left fun index _ ↦ hkb index]
    change ((Mempool.new block).mpLeftSizeKb.toNat : Int) = _
    rw [hleft]
    rfl
  · change ((Mempool.new block).mpTotalSizeKb.toNat : Int) =
      (Mempool.new block).mpLeftSizeKb.toNat + 0
    rw [hleft, htotal]
    rfl
  · change (Mempool.new block).mpTotalSizeKb < _
    rw [htotal]
    decide

/-- Every history keeps the accounts. -/
theorem accounts_of_reach {block : Nat → Int → UInt8} (h : Reach PoolState.step (init block) s) :
    ∃ free, s.Accounts free :=
  h.invariant (P := fun s ↦ ∃ free, s.Accounts free) (accounts_init block)
    fun _ _ _ ⟨_, hs⟩ _ hstep ↦ hs.step hstep

/-! ### alloc_chunk -/

/-- The loop of `alloc_chunk` finds nothing exactly beyond the largest class. -/
theorem findClass_eq_none : Mempool.findClass n = none ↔ 4194304 < n := by
  simp only [Mempool.findClass, memCaps, List.find?_eq_none, List.mem_cons, List.not_mem_nil,
    or_false, decide_eq_true_eq]
  constructor
  · intro h
    have := h 4194304 (by simp)
    omega
  · intro h index hindex
    omega

/-- The loop of `alloc_chunk` stops at the smallest class that is large enough. -/
theorem findClass_smallest {index : Int} (h : Mempool.findClass n = some index) :
    ∀ index' ∈ memCaps, n ≤ index' → index ≤ index' := by
  obtain ⟨-, smaller, larger, heq, hsmaller⟩ := List.find?_eq_some_iff_append.mp h
  have hsorted : memCaps.Pairwise (· ≤ ·) := by decide
  rw [heq, List.pairwise_append, List.pairwise_cons] at hsorted
  intro index' hmem hle
  rw [heq, List.mem_append, List.mem_cons] at hmem
  rcases hmem with hmem | rfl | hmem
  · have := hsmaller index' hmem
    simp [hle] at this
  · exact Int.le_refl _
  · exact hsorted.2.1.1 index' hmem

/-- In balanced accounts `alloc_chunk` does what it should. -/
theorem Accounts.allocMeets (h : s.Accounts free) (n : Int) (newOk : Bool)
    (block : Int → UInt8) : s.AllocMeets n newOk (s.pool.allocChunk n newOk block) := by
  cases halloc : s.pool.allocChunk n newOk block with
  | error hr =>
    obtain ⟨rfl, index, hclass, hcause⟩ := Mempool.halt_of_allocChunk halloc
    obtain ⟨hindex, hle⟩ := Mempool.findClass_eq_some hclass
    have := (Mempool.memCaps_range hindex).2
    exact ⟨by omega, rfl, index, hindex, hle, hcause⟩
  | ok r =>
    obtain ⟨p, pool⟩ := r
    cases p with
    | none =>
      rcases h.part.allocChunk h.keys halloc with ⟨-, hclass, rfl⟩ | ⟨a, _, hne, -⟩
      · exact ⟨findClass_eq_none.mp hclass, rfl⟩
      · cases hne
    | some a =>
      obtain ⟨hout, hclass, hlen, hhead, hnext, free', haccounts, hlisted⟩ := h.alloc halloc
      obtain ⟨hindex, hle⟩ := Mempool.findClass_eq_some hclass
      have := (Mempool.memCaps_range hindex).2
      exact ⟨by omega, hout, ⟨_, hindex, hle, findClass_smallest hclass, rfl, hlen, hhead⟩, hnext,
        free', haccounts.balanced, hlisted⟩

end PoolState

/-- After every history of `alloc_chunk` and `retrieve` the counters agree with the lists and the
chunks handed out, and the next `alloc_chunk` does what it should. -/
theorem pool_accounting {blocks : Nat → Int → UInt8} {s : PoolState}
    (h : Reach PoolState.step (.init blocks) s) :
    (∃ free, s.Balanced free) ∧
      ∀ (n : Int) (newOk : Bool) (block : Int → UInt8),
        s.AllocMeets n newOk (s.pool.allocChunk n newOk block) := by
  obtain ⟨free, haccounts⟩ := PoolState.accounts_of_reach h
  exact ⟨⟨free, haccounts.balanced⟩, haccounts.allocMeets⟩

/-- A client takes a chunk, fills it and gives it back. -/
def takeAndReturn : List PoolAction :=
  [.alloc 5000 true fun _ ↦ 0, .change 2000 7 3 fun _ ↦ 9, .alloc (-1) true fun _ ↦ 0,
    .retrieve 2000]

/-- The accounts after that. -/
theorem accounting_after_return :
    ∃ s, run PoolState.step (.init fun _ _ ↦ 0) takeAndReturn = some s ∧
      ((∃ free, s.Balanced free) ∧ ∀ (n : Int) (newOk : Bool) (block : Int → UInt8),
        s.AllocMeets n newOk (s.pool.allocChunk n newOk block)) := by
  have hrun : (run PoolState.step (.init fun _ _ ↦ 0) takeAndReturn).isSome := by decide +kernel
  obtain ⟨s, hs⟩ := Option.isSome_iff_exists.mp hrun
  exact ⟨s, hs, pool_accounting (reach_of_run hs)⟩

end ConcurrentServer.Memory
