import ConcurrentServer.Memory.ListSize

/-!
# How far the pool grows

`src/memory/mem_pool.cpp:38–92`. Chunks are never given back to the system, and a new one is made
only when the list of its class is empty. So the pool has no more chunks of a class than it began
with, or than were handed out at one time.
-/

namespace ConcurrentServer.Memory
open ConcurrentServer.Base

namespace Mempool

/-- The KiB of `count index` chunks of each class. -/
def capsKb (count : Int → Nat) : Int := (memCaps.map fun index ↦ count index * (index / 1024)).sum

/-- The chunks of each class, if at most `most index` are handed out at one time. -/
def peak (most : Int → Nat) (index : Int) : Nat := max (chunkNums index) (most index)

variable {mp mp' : Mempool} {free : Int → List Nat} {a : Nat} {index : Int}

theorem capsKb_add (f g : Int → Nat) :
    capsKb (fun index ↦ f index + g index) = capsKb f + capsKb g := by
  simp only [capsKb, memCaps, List.map_cons, List.map_nil, List.sum_cons, List.sum_nil]
  push_cast
  omega

theorem capsKb_mono {f g : Int → Nat} (h : ∀ index ∈ memCaps, f index ≤ g index) :
    capsKb f ≤ capsKb g := by
  refine List.sum_le_sum fun index hindex ↦ ?_
  have hrange := memCaps_range hindex
  exact Int.mul_le_mul_of_nonneg_right (Int.ofNat_le.mpr (h index hindex)) (by omega)

/-- One chunk. -/
theorem capsKb_single (hindex : index ∈ memCaps) :
    capsKb (fun index' ↦ if index = index' then 1 else 0) = index / 1024 := by
  simp only [memCaps, List.mem_cons, List.not_mem_nil, or_false] at hindex
  rcases hindex with rfl | rfl | rfl | rfl | rfl | rfl <;> simp [capsKb, memCaps]

/-- What the chunks of a list count for, class by class. -/
theorem kb_eq_capsKb {l : List Nat} (h : ∀ a ∈ l, (mp.chunks a).capacity ∈ memCaps) :
    mp.kb l = capsKb fun index ↦ l.countP fun a ↦ (mp.chunks a).capacity = index := by
  induction l with
  | nil => simp [kb, capsKb, memCaps]
  | cons a l ih =>
    rw [kb_cons, ih fun b hb ↦ h b (List.mem_cons_of_mem a hb),
      ← capsKb_single (h a List.mem_cons_self), Int.add_comm, ← capsKb_add]
    congr 1
    funext index
    rw [List.countP_cons]
    simp only [decide_eq_true_eq]

/-- What the lists count for, class by class. -/
theorem Partition.listsKb_eq {held : Nat → Prop} (h : mp.Partition free held) :
    mp.listsKb free = capsKb fun index ↦ (free index).length := by
  unfold listsKb capsKb
  congr 1
  refine List.map_congr_left fun index _ ↦ ?_
  have hconst : (free index).map (fun a ↦ (mp.chunks a).capacity / 1024) =
      (free index).map fun _ ↦ index / 1024 :=
    List.map_congr_left fun a ha ↦ congrArg (· / 1024) (h.listed index a ha).2.2.1
  rw [kb, hconst, List.map_const', List.sum_replicate, nsmul_eq_mul]

/-- A class has no list, or its first chunk is handed out. -/
theorem head_of_allocChunk {n : Int} {newOk : Bool} {block : Int → UInt8}
    (halloc : mp.allocChunk n newOk block = .ok (some a, mp')) (hclass : findClass n = some index) :
    mp.head index = none ∨ mp.head index = some a := by
  unfold allocChunk at halloc
  rw [hclass] at halloc
  dsimp only at halloc
  split at halloc
  · exact Or.inl ‹_›
  · next target hhead =>
    cases halloc
    exact Or.inr hhead

end Mempool

namespace PoolState
open Mempool

/-- How many chunks of a class are handed out. -/
def inUse (s : PoolState) (index : Int) : Nat :=
  s.out.countP fun a ↦ (s.pool.chunks a).capacity = index

/-- The condition on a step: after it, at most `most index` chunks of each class are handed out. -/
def UsesAtMost (most : Int → Nat) (s : PoolState) (x : PoolAction) : Prop :=
  ∀ t ∈ s.step x, ∀ index ∈ memCaps, t.inUse index ≤ most index

instance (most : Int → Nat) (s : PoolState) (x : PoolAction) : Decidable (UsesAtMost most s x) :=
  inferInstanceAs (Decidable (∀ t ∈ s.step x, ∀ index ∈ memCaps, t.inUse index ≤ most index))

/-- The chunks of each class are no more than there may be. -/
structure Grown (most : Int → Nat) (s : PoolState) (free : Int → List Nat) : Prop where
  accounts : s.Accounts free
  bound : ∀ index ∈ memCaps, (free index).length + s.inUse index ≤ peak most index

variable {s t : PoolState} {free free' : Int → List Nat} {most : Int → Nat} {a : Nat}

/-- The lists of a pool can be said in one way. -/
theorem Accounts.free_unique (h : s.Accounts free) {held : Nat → Prop}
    (h' : s.pool.Partition free' held) : free' = free :=
  funext fun index ↦ (h'.linked index).unique (h.part.linked index)

/-- The counter, class by class. -/
theorem Accounts.total_eq (h : s.Accounts free) :
    (s.pool.mpTotalSizeKb.toNat : Int) =
      capsKb fun index ↦ (free index).length + s.inUse index := by
  have hout : s.pool.kb s.out = capsKb s.inUse :=
    kb_eq_capsKb fun a ha ↦ (h.part.handedOut a ha).2
  rw [h.total, h.left, h.part.listsKb_eq, hout, capsKb_add]

/-- One more chunk is handed out. -/
theorem inUse_cons {pool : Mempool} (fresh : a ∉ s.out)
    (same : ∀ b ≠ a, pool.chunks b = s.pool.chunks b) (index : Int) :
    inUse ⟨pool, a :: s.out⟩ index =
      s.inUse index + if (pool.chunks a).capacity = index then 1 else 0 := by
  have hold : (s.out.countP fun b ↦ (pool.chunks b).capacity = index) = s.inUse index :=
    List.countP_congr fun b hb ↦ by rw [same b fun he ↦ fresh (he ▸ hb)]
  unfold inUse
  rw [List.countP_cons, hold]
  simp only [decide_eq_true_eq]
  rfl

/-- `alloc_chunk` has handed out a chunk, and no class exceeds what is admitted. -/
theorem Grown.alloc (h : s.Grown most free) {n : Int} {newOk : Bool} {block : Int → UInt8}
    {pool : Mempool} (halloc : s.pool.allocChunk n newOk block = .ok (some a, pool))
    (admitted : ∀ index ∈ memCaps, inUse ⟨pool, a :: s.out⟩ index ≤ most index) :
    ∃ free', Grown most ⟨pool, a :: s.out⟩ free' := by
  obtain ⟨-, -, -, -, -, free', haccounts, hlisted⟩ := h.accounts.alloc halloc
  rcases h.accounts.part.allocChunk h.accounts.keys halloc with ⟨hnone, -⟩ |
    ⟨a', free'', ha', hout, hpart, -, hclass, -, -, -, hframe, hobtained⟩
  · cases hnone
  obtain rfl := Option.some.inj ha'
  obtain rfl := haccounts.free_unique hpart
  have hindex := (findClass_eq_some hclass).1
  refine ⟨free'', haccounts, fun index hmem ↦ ?_⟩
  have huse := inUse_cons hout hframe index
  have hbound := h.bound index hmem
  cases hobtained with
  | listed rest front lists total left =>
    -- The list has lost what is handed out.
    by_cases hne : index = (pool.chunks a).capacity
    · rw [if_pos hne.symm] at huse
      have hlength : (free index).length = rest.length + 1 := by
        rw [hne, front, List.length_cons]
      rw [lists, hne, Function.update_self, ← hne]
      omega
    · rw [if_neg fun he ↦ hne he.symm] at huse
      rw [lists, Function.update_of_ne hne, huse]
      omega
  | created lists limit total left =>
    rw [lists]
    by_cases hne : index = (pool.chunks a).capacity
    · -- The list was empty, and all chunks of the class are handed out.
      have hempty : free index = [] := by
        rcases head_of_allocChunk halloc hclass with hhead | hhead
        · rw [hne]
          have hlist := h.accounts.part.linked (pool.chunks a).capacity
          rw [hhead] at hlist
          exact hlist.of_none
        · have hlist := h.accounts.part.linked (pool.chunks a).capacity
          rw [hhead] at hlist
          obtain ⟨rest, hrest, -⟩ := hlist.of_some
          refine absurd ?_ (hlisted (pool.chunks a).capacity)
          rw [lists, hrest]
          exact List.mem_cons_self
      rw [hempty, List.length_nil, Nat.zero_add]
      exact Nat.le_trans (admitted index hmem) (Nat.le_max_right _ _)
    · rw [if_neg fun he ↦ hne he.symm] at huse
      rw [huse]
      exact hbound

/-- `retrieve` puts a chunk back on its list. -/
theorem Grown.retrieve (h : s.Grown most free) (ha : a ∈ s.out) {pool : Mempool}
    (hret : s.pool.retrieve a = .ok pool) : ∃ free', Grown most ⟨pool, s.out.erase a⟩ free' := by
  obtain ⟨pool', free', hret', haccounts⟩ := h.accounts.retrieve ha
  obtain rfl := Except.ok.inj (hret.symm.trans hret')
  obtain ⟨pool'', hret'', hpart, -, hframe, -, -⟩ := h.accounts.part.retrieve h.accounts.keys ha
  obtain rfl := Except.ok.inj (hret.symm.trans hret'')
  have hfree := haccounts.free_unique hpart
  refine ⟨free', haccounts, fun index hmem ↦ ?_⟩
  have hbound := h.bound index hmem
  have huse : s.inUse index = inUse ⟨pool, s.out.erase a⟩ index +
      if (s.pool.chunks a).capacity = index then 1 else 0 := by
    have hold : ((s.out.erase a).countP fun b ↦ (pool.chunks b).capacity = index) =
        (s.out.erase a).countP fun b ↦ (s.pool.chunks b).capacity = index :=
      List.countP_congr fun b hb ↦ by
        rw [hframe b fun he ↦ h.accounts.nodup.not_mem_erase (he ▸ hb)]
    unfold inUse
    rw [(List.perm_cons_erase ha).countP_eq, List.countP_cons, hold]
    simp only [decide_eq_true_eq]
  rw [← hfree]
  by_cases hne : index = (s.pool.chunks a).capacity
  · rw [if_pos hne.symm] at huse
    rw [hne, Function.update_self, List.length_cons, ← hne]
    omega
  · rw [if_neg fun he ↦ hne he.symm] at huse
    rw [Function.update_of_ne hne]
    omega

/-- A client's change of a chunk. -/
theorem Grown.change (h : s.Grown most free) (ha : a ∈ s.out) {f : Chunk → Chunk}
    (capacity : ∀ c, (f c).capacity = c.capacity) :
    Grown most { s with pool := s.pool.modify a f } free := by
  refine ⟨h.accounts.change ha capacity, fun index hmem ↦ ?_⟩
  have huse : inUse { s with pool := s.pool.modify a f } index = s.inUse index := by
    unfold inUse
    refine List.countP_congr fun b _ ↦ ?_
    rw [capacity_modify capacity]
  rw [huse]
  exact h.bound index hmem

/-- Every admitted step. -/
theorem Grown.step (h : s.Grown most free) {x : PoolAction} (hok : UsesAtMost most s x)
    (hstep : s.step x = some t) : ∃ free', t.Grown most free' := by
  have hadmitted := hok t hstep
  cases x with
  | alloc n newOk block =>
    simp only [PoolState.step] at hstep
    split at hstep
    · next p pool halloc =>
      obtain rfl := Option.some.inj hstep
      cases p with
      | none =>
        rcases h.accounts.part.allocChunk h.accounts.keys halloc with ⟨-, -, rfl⟩ | ⟨_, _, hne, -⟩
        · exact ⟨free, h⟩
        · cases hne
      | some a => exact h.alloc halloc hadmitted
    · cases hstep
  | retrieve a =>
    obtain ⟨ha, hstep⟩ := Option.ite_none_right_eq_some.mp hstep
    split at hstep
    · next pool hret =>
      obtain rfl := Option.some.inj hstep
      exact h.retrieve ha hret
    · cases hstep
  | change a length head data =>
    obtain ⟨ha, hstep⟩ := Option.ite_none_right_eq_some.mp hstep
    obtain rfl := Option.some.inj hstep
    exact ⟨free, h.change ha fun _ ↦ rfl⟩

/-- The constructed pool. -/
theorem grown_init (most : Int → Nat) (block : Nat → Int → UInt8) :
    ∃ free, (init block).Grown most free := by
  obtain ⟨free, haccounts⟩ := accounts_init block
  obtain ⟨free', hpart, -, hlength⟩ := Mempool.partition_new block
  obtain rfl := haccounts.free_unique hpart
  refine ⟨free', haccounts, fun index _ ↦ ?_⟩
  have hnone : (init block).inUse index = 0 := rfl
  rw [hlength, hnone]
  exact Nat.le_max_left _ _

/-- Where all chunks that there may be have room, there is room for one more. -/
theorem Grown.room (h : s.Grown most free) (fits : capsKb (peak most) < maxPoolSize.toNat)
    {index : Int} (hindex : index ∈ memCaps) (hhead : s.pool.head index = none)
    (more : s.inUse index < most index) :
    ¬ maxPoolSize ≤ s.pool.mpTotalSizeKb + sizeKb index := by
  have hempty : free index = [] := by
    have hlist := h.accounts.part.linked index
    rw [hhead] at hlist
    exact hlist.of_none
  have hone : capsKb (fun index' ↦ ((free index').length + s.inUse index') +
      if index = index' then 1 else 0) ≤ capsKb (peak most) := by
    refine capsKb_mono fun index' hindex' ↦ ?_
    have hbound := h.bound index' hindex'
    split
    · next he =>
      rw [← he, hempty, List.length_nil]
      unfold peak
      omega
    · exact hbound
  rw [capsKb_add, ← h.accounts.total_eq, capsKb_single hindex] at hone
  have hsize := toNat_sizeKb hindex
  have hrange := memCaps_range hindex
  have hlimit := h.accounts.limit_toNat
  have hadd := UInt64.toNat_add s.pool.mpTotalSizeKb (sizeKb index)
  rw [Nat.mod_eq_of_lt (by omega)] at hadd
  rw [UInt64.le_iff_toNat_le, hadd]
  omega

end PoolState

/-- The pool grows with its clients only. In every run in which at most `most c` chunks of each
class `c` are handed out at a time, the pool has no more memory than for these, or for those that it
began with where they are more. If all that is less than the limit, then `alloc_chunk` ends the
process for no request within these numbers while there is memory. -/
theorem pool_grows_to_peak {blocks : Nat → Int → UInt8} {most : Int → Nat} {s : PoolState}
    (h : ReachBy PoolState.step (PoolState.UsesAtMost most) (.init blocks) s) :
    (s.pool.mpTotalSizeKb.toNat : Int) ≤ Mempool.capsKb (Mempool.peak most) ∧
      (Mempool.capsKb (Mempool.peak most) < maxPoolSize.toNat →
        ∀ (n index : Int) (block : Int → UInt8), Mempool.findClass n = some index →
          s.inUse index < most index → ∃ r, s.pool.allocChunk n true block = .ok r) := by
  obtain ⟨free, hgrown⟩ : ∃ free, s.Grown most free :=
    h.invariant (P := fun s ↦ ∃ free, s.Grown most free) (PoolState.grown_init most blocks)
      fun _ _ _ ⟨_, hs⟩ hok hstep ↦ hs.step hok hstep
  constructor
  · rw [hgrown.accounts.total_eq]
    exact Mempool.capsKb_mono hgrown.bound
  · intro fits n index block hclass more
    cases halloc : s.pool.allocChunk n true block with
    | ok r => exact ⟨r, rfl⟩
    | error e =>
      obtain ⟨-, index', hclass', hhead, hfull | hnew⟩ := Mempool.halt_of_allocChunk halloc
      · obtain rfl := Option.some.inj (hclass.symm.trans hclass')
        exact absurd hfull
          (hgrown.room fits (Mempool.findClass_eq_some hclass).1 hhead more)
      · cases hnew

/-- A client takes one chunk of the largest class more than the pool began with, and gives one
back. -/
def elevenLargest : List PoolAction :=
  .replicate 11 (.alloc 4194304 true fun _ ↦ 0) ++ [.retrieve 2875]

/-- The pool has become larger by that chunk at most, and serves the client again. -/
theorem eleven_largest_served :
    ∃ s, run PoolState.step (.init fun _ _ ↦ 0) elevenLargest = some s ∧
      (s.pool.mpTotalSizeKb.toNat : Int) ≤
        Mempool.capsKb (Mempool.peak fun index ↦ if index = 4194304 then 11 else 0) ∧
      ∃ r, s.pool.allocChunk 4194304 true (fun _ ↦ 0) = .ok r := by
  have hrun : (run PoolState.step (.init fun _ _ ↦ 0) elevenLargest).isSome := by decide +kernel
  have huse : ∀ s ∈ run PoolState.step (.init fun _ _ ↦ 0) elevenLargest,
      s.inUse 4194304 < 11 := by decide +kernel
  obtain ⟨s, hs⟩ := Option.isSome_iff_exists.mp hrun
  have hreach : ReachBy PoolState.step
      (PoolState.UsesAtMost fun index ↦ if index = 4194304 then 11 else 0) (.init fun _ _ ↦ 0) s :=
    reachBy_of_run hs (by decide +kernel)
  obtain ⟨htotal, hserved⟩ := pool_grows_to_peak hreach
  exact ⟨s, hs, htotal, hserved (by decide +kernel) 4194304 4194304 _ rfl (huse s hs)⟩

end ConcurrentServer.Memory
