import ConcurrentServer.Memory.Accounting
import Mathlib.Algebra.BigOperators.Ring.List

/-!
# The size of a list

`src/memory/mem_pool.cpp`. `get_list_size_byte` adds up in an `int` what a list of the pool has in
bytes, while the pool may grow up to 4 GiB.
-/

namespace ConcurrentServer.Memory
open ConcurrentServer.Base

namespace Mempool

/-- `Mempool::get_list_size_byte`, with wrap-around; `none` if the loop has passed as many nodes as
there are chunks and is not at the end. -/
def getListSizeByte (mp : Mempool) (index : Int) : Except Halt (Option Int) :=
  match mp.mpPool index with
  | none => .error .assertion
  | some node =>
    .ok (foldNodes mp.next (fun size a ↦ int32 (size + (mp.chunks a).capacity)) mp.created 0 node)

/-- What the chunks of a list have in bytes. -/
def listBytes (mp : Mempool) (l : List Nat) : Int := (l.map fun a ↦ (mp.chunks a).capacity).sum

/-- `get_list_size_byte` returns for each class what its list has, and what it returns adds up to
the left counter. -/
def SizesAgree (mp : Mempool) : Prop :=
  ∃ sizes : Int → Int,
    (∀ index ∈ memCaps, mp.getListSizeByte index = .ok (some (sizes index)) ∧
      ∃ l, Linked mp.next (mp.head index) l ∧ sizes index = mp.listBytes l) ∧
    (memCaps.map sizes).sum / 1024 = mp.mpLeftSizeKb.toNat

/-- The list of each class has fewer chunks than make up 2³¹ bytes. -/
def ListsFit (mp : Mempool) : Prop :=
  ∀ index ∈ memCaps, ∀ l, Linked mp.next (mp.head index) l → l.length < 2147483648 / index

variable {mp : Mempool} {free : Int → List Nat} {index : Int} {l : List Nat}

/-- The `int` of the loop is the sum, wrapped around. -/
theorem foldl_capacity (x : Int) :
    l.foldl (fun size a ↦ int32 (size + (mp.chunks a).capacity)) (int32 x) =
      int32 (x + mp.listBytes l) := by
  induction l generalizing x with
  | nil => rw [List.foldl_nil, listBytes, List.map_nil, List.sum_nil, Int.add_zero]
  | cons a l ih =>
    rw [List.foldl_cons, int32_add, ih, listBytes, listBytes, List.map_cons, List.sum_cons,
      Int.add_assoc]

/-- The chunks of a class all have its capacity. -/
theorem listBytes_of_class (h : ∀ a ∈ l, (mp.chunks a).capacity = index) :
    mp.listBytes l = l.length * index := by
  rw [listBytes, List.map_congr_left h, List.map_const', List.sum_replicate, nsmul_eq_mul]

/-- In KiB it is what the pool's counters count. -/
theorem listBytes_eq_kb (hindex : index ∈ memCaps)
    (h : ∀ a ∈ l, (mp.chunks a).capacity = index) : mp.listBytes l = 1024 * mp.kb l := by
  have hkb : mp.kb l = l.length * (index / 1024) := by
    rw [kb, List.map_congr_left fun a ha ↦ by rw [h a ha], List.map_const', List.sum_replicate,
      nsmul_eq_mul]
  have hdvd : index = 1024 * (index / 1024) := by
    simp only [memCaps, List.mem_cons, List.not_mem_nil, or_false] at hindex
    omega
  rw [listBytes_of_class h, hkb, Int.mul_left_comm, ← hdvd]

/-- The list fits into the `int` exactly if it is that short. -/
theorem listBytes_le_iff (hindex : index ∈ memCaps)
    (h : ∀ a ∈ l, (mp.chunks a).capacity = index) :
    mp.listBytes l ≤ intMax ↔ l.length < 2147483648 / index := by
  rw [listBytes_of_class h]
  unfold intMax
  simp only [memCaps, List.mem_cons, List.not_mem_nil, or_false] at hindex
  rcases hindex with rfl | rfl | rfl | rfl | rfl | rfl <;> omega

/-- A list has no more chunks than there are. -/
theorem Partition.length_le {held : Nat → Prop} (h : mp.Partition free held) :
    (free index).length ≤ mp.created := by
  have hsub : free index ⊆ List.range mp.created := fun a ha ↦
    List.mem_range.mpr (h.listed index a ha).1
  have hle := (h.nodup index).length_le_of_subset hsub
  rwa [List.length_range] at hle

/-- What `get_list_size_byte` returns: the bytes of the list, wrapped around. -/
theorem Partition.getListSizeByte {held : Nat → Prop} (h : mp.Partition free held)
    (keys : mp.HasKeys) (hindex : index ∈ memCaps) :
    mp.getListSizeByte index = .ok (some (int32 (mp.listBytes (free index)))) := by
  obtain ⟨node, hnode⟩ := Option.isSome_iff_exists.mp (keys index hindex)
  have hlinked := h.linked index
  rw [head, hnode, Option.join_some] at hlinked
  have hfold := hlinked.foldNodes (fun size a ↦ int32 (size + (mp.chunks a).capacity)) 0
    h.length_le
  have hsum : (free index).foldl (fun size a ↦ int32 (size + (mp.chunks a).capacity)) 0 =
      int32 (0 + mp.listBytes (free index)) := foldl_capacity 0
  rw [Int.zero_add] at hsum
  rw [Mempool.getListSizeByte, hnode]
  exact congrArg Except.ok (hfold.trans (congrArg some hsum))

/-- Only the lists themselves matter. -/
theorem Partition.listsFit_iff {held : Nat → Prop} (h : mp.Partition free held) :
    mp.ListsFit ↔ ∀ index ∈ memCaps, mp.listBytes (free index) ≤ intMax := by
  have hcap (index : Int) : ∀ a ∈ free index, (mp.chunks a).capacity = index := fun a ha ↦
    (h.listed index a ha).2.2.1
  constructor
  · intro hfit index hindex
    exact (listBytes_le_iff hindex (hcap index)).mpr
      (hfit index hindex (free index) (h.linked index))
  · intro hle index hindex l hl
    rw [hl.unique (h.linked index)]
    exact (listBytes_le_iff hindex (hcap index)).mp (hle index hindex)

end Mempool

namespace PoolState

variable {s : PoolState} {free : Int → List Nat}

/-- In balanced accounts the returned sizes are right exactly if no list is too long. -/
theorem Accounts.sizesAgree_iff (h : s.Accounts free) : s.pool.SizesAgree ↔ s.pool.ListsFit := by
  have hcap (index : Int) : ∀ a ∈ free index, (s.pool.chunks a).capacity = index := fun a ha ↦
    (h.part.listed index a ha).2.2.1
  have hnonneg {index : Int} (hindex : index ∈ memCaps) :
      0 ≤ s.pool.listBytes (free index) := by
    have := Mempool.memCaps_range hindex
    rw [Mempool.listBytes_of_class (hcap index)]
    exact Int.mul_nonneg (Int.natCast_nonneg _) (by omega)
  rw [h.part.listsFit_iff]
  constructor
  · rintro ⟨sizes, hsizes, -⟩ index hindex
    obtain ⟨hget, l, hl, hbytes⟩ := hsizes index hindex
    rw [hl.unique (h.part.linked index)] at hbytes
    rw [h.part.getListSizeByte h.keys hindex] at hget
    rw [← Option.some.inj (Except.ok.inj hget)] at hbytes
    exact (int32_eq_self_iff (hnonneg hindex)).mp hbytes
  · intro hfit
    refine ⟨fun index ↦ s.pool.listBytes (free index), fun index hindex ↦ ⟨?_, _,
      h.part.linked index, rfl⟩, ?_⟩
    · rw [h.part.getListSizeByte h.keys hindex,
        (int32_eq_self_iff (hnonneg hindex)).mpr (hfit index hindex)]
    · have hsum : (memCaps.map fun index ↦ s.pool.listBytes (free index)).sum =
          1024 * s.pool.listsKb free := by
        rw [Mempool.listsKb, ← List.sum_map_mul_left]
        exact congrArg List.sum (List.map_congr_left fun index hindex ↦
          Mempool.listBytes_eq_kb hindex (hcap index))
      rw [hsum, Int.mul_ediv_cancel_left _ (by decide), h.left]

end PoolState

/-- In every state that a history of `alloc_chunk` and `retrieve` leads to, `get_list_size_byte`
returns the bytes of each list, and all of them add up to the left counter, exactly if each list
fits into an `int`. -/
theorem list_sizes_agree_iff {blocks : Nat → Int → UInt8} {s : PoolState}
    (h : Reach PoolState.step (.init blocks) s) : s.pool.SizesAgree ↔ s.pool.ListsFit := by
  obtain ⟨free, haccounts⟩ := PoolState.accounts_of_reach h
  exact haccounts.sizesAgree_iff

/-- The sizes after a client has taken a chunk and given it back. -/
theorem sizes_agree_after_return :
    ∃ s, run PoolState.step (.init fun _ _ ↦ 0) takeAndReturn = some s ∧
      (s.pool.SizesAgree ↔ s.pool.ListsFit) := by
  have hrun : (run PoolState.step (.init fun _ _ ↦ 0) takeAndReturn).isSome := by decide +kernel
  obtain ⟨s, hs⟩ := Option.isSome_iff_exists.mp hrun
  exact ⟨s, hs, list_sizes_agree_iff (reach_of_run hs)⟩

/-! ### A list of 2 GiB -/

namespace Mempool

variable {mp mp' : Mempool} {a : Nat}

/-- A change of a chunk that keeps its capacity keeps all of them. -/
theorem capacity_modify {b : Nat} {f : Chunk → Chunk} (h : ∀ c, (f c).capacity = c.capacity) :
    ((mp.modify b f).chunks a).capacity = (mp.chunks a).capacity := by
  by_cases hab : a = b
  · rw [hab, chunks_modify_self, h]
  · rw [chunks_modify_of_ne hab]

/-- `alloc_chunk` does not change what a chunk was created with. -/
theorem capacity_of_allocChunk {n : Int} {newOk : Bool} {block : Int → UInt8} {p : Option Nat}
    (halloc : mp.allocChunk n newOk block = .ok (p, mp')) (ha : a < mp.created) :
    a < mp'.created ∧ (mp'.chunks a).capacity = (mp.chunks a).capacity := by
  unfold Mempool.allocChunk at halloc
  split at halloc
  · cases halloc
    exact ⟨ha, rfl⟩
  · split at halloc
    · split at halloc
      · cases halloc
      · split at halloc
        · cases halloc
        · cases halloc
          exact ⟨Nat.lt_succ_of_lt ha, congrArg Chunk.capacity
            (chunks_newChunk_of_ne (Nat.ne_of_lt ha))⟩
    · cases halloc
      have hsame (c : Chunk) : { c with next := none }.capacity = c.capacity := rfl
      exact ⟨ha, capacity_modify hsame⟩

/-- Nor does `retrieve`. -/
theorem capacity_of_retrieve {b : Nat} (hret : mp.retrieve b = .ok mp') (ha : a < mp.created) :
    a < mp'.created ∧ (mp'.chunks a).capacity = (mp.chunks a).capacity := by
  unfold Mempool.retrieve at hret
  dsimp only at hret
  split at hret
  · cases hret
  · next p _ =>
    cases hret
    have hsame (c : Chunk) : { c.reset with next := p }.capacity = c.capacity := rfl
    exact ⟨ha, capacity_modify hsame⟩

end Mempool

namespace PoolState

variable {s t : PoolState} {free : Int → List Nat} {a : Nat}

/-- No step changes what a chunk was created with. -/
theorem capacity_of_step {x : PoolAction} (hstep : s.step x = some t) (ha : a < s.pool.created) :
    a < t.pool.created ∧ (t.pool.chunks a).capacity = (s.pool.chunks a).capacity := by
  cases x with
  | alloc n newOk block =>
    simp only [PoolState.step] at hstep
    split at hstep
    · next p pool halloc =>
      obtain rfl := Option.some.inj hstep
      exact Mempool.capacity_of_allocChunk halloc ha
    · cases hstep
  | retrieve b =>
    obtain ⟨-, hstep⟩ := Option.ite_none_right_eq_some.mp hstep
    split at hstep
    · next pool hret =>
      obtain rfl := Option.some.inj hstep
      exact Mempool.capacity_of_retrieve hret ha
    · cases hstep
  | change b length head data =>
    obtain ⟨-, hstep⟩ := Option.ite_none_right_eq_some.mp hstep
    obtain rfl := Option.some.inj hstep
    have hsame (c : Chunk) :
        { c with length := length, head := head, data := data }.capacity = c.capacity := rfl
    exact ⟨ha, Mempool.capacity_modify hsame⟩

/-- Nor does a run. -/
theorem capacity_of_reach (h : Reach PoolState.step s t) (ha : a < s.pool.created) :
    a < t.pool.created ∧ (t.pool.chunks a).capacity = (s.pool.chunks a).capacity := by
  induction h with
  | refl => exact ⟨ha, rfl⟩
  | tail x _ _ hstep ih =>
    obtain ⟨hlt, hcap⟩ := ih
    obtain ⟨hlt', hcap'⟩ := capacity_of_step hstep hlt
    exact ⟨hlt', hcap'.trans hcap⟩

/-- A client asks for 4 MiB. -/
def askLargest : PoolAction := .alloc 4194304 true fun _ ↦ 0

/-- With room for it below the limit, a chunk of 4 MiB can be had. -/
theorem Accounts.askLargest (h : s.Accounts free)
    (room : s.pool.mpTotalSizeKb.toNat + 4096 < 4194304) :
    ∃ a t free', s.step askLargest = some t ∧ t.Accounts free' ∧ t.out = a :: s.out ∧
      (t.pool.chunks a).capacity = 4194304 ∧
      t.pool.mpTotalSizeKb.toNat ≤ s.pool.mpTotalSizeKb.toNat + 4096 := by
  have hclass : Mempool.findClass 4194304 = some 4194304 := by decide
  cases halloc : s.pool.allocChunk 4194304 true (fun _ ↦ 0) with
  | error hr =>
    obtain ⟨-, index, hfind, -, hfull | hnew⟩ := Mempool.halt_of_allocChunk halloc
    · rw [hclass] at hfind
      cases hfind
      have hadd := UInt64.toNat_add s.pool.mpTotalSizeKb (sizeKb 4194304)
      have hle := UInt64.le_iff_toNat_le.mp hfull
      rw [hadd] at hle
      change 4194304 ≤ (s.pool.mpTotalSizeKb.toNat + 4096) % 2 ^ 64 at hle
      omega
    · cases hnew
  | ok r =>
    obtain ⟨p, pool⟩ := r
    rcases h.part.allocChunk h.keys halloc with ⟨-, hnone, -⟩ |
      ⟨a, _, rfl, -, -, -, hfind, -, -, -, -, hobtained⟩
    · rw [hclass] at hnone
      cases hnone
    · obtain ⟨-, -, -, -, -, free', haccounts, -⟩ := h.alloc halloc
      have hcap : (pool.chunks a).capacity = 4194304 := by
        rw [hclass] at hfind
        exact (Option.some.inj hfind).symm
      refine ⟨a, ⟨pool, a :: s.out⟩, free', ?_, haccounts, rfl, hcap, ?_⟩
      · simp only [PoolState.askLargest, PoolState.step, halloc]
        rfl
      · cases hobtained with
        | listed _ _ _ total _ =>
          rw [total]
          exact Nat.le_add_right _ _
        | created _ _ total _ =>
          rw [total, hcap, UInt64.toNat_add]
          exact Nat.mod_le _ _

/-- With room for them below the limit, several such chunks can be had. -/
theorem Accounts.askMany (h : s.Accounts free)
    (large : ∀ a ∈ s.out, (s.pool.chunks a).capacity = 4194304) {k : Nat}
    (room : s.pool.mpTotalSizeKb.toNat + 4096 * k < 4194304) :
    ∃ t free', run PoolState.step s (List.replicate k PoolState.askLargest) = some t ∧
      t.Accounts free' ∧ t.out.length = s.out.length + k ∧
      ∀ a ∈ t.out, (t.pool.chunks a).capacity = 4194304 := by
  induction k generalizing s free with
  | zero => exact ⟨s, free, rfl, h, rfl, large⟩
  | succ k ih =>
    obtain ⟨a, u, free₁, hstep, hu, hout, hcap, htotal⟩ :=
      h.askLargest (Nat.lt_of_le_of_lt (by omega) room)
    have hlarge : ∀ b ∈ u.out, (u.pool.chunks b).capacity = 4194304 := by
      intro b hb
      rw [hout] at hb
      rcases List.mem_cons.mp hb with rfl | hb
      · exact hcap
      · rw [(capacity_of_step hstep (h.part.handedOut b hb).1).2]
        exact large b hb
    obtain ⟨t, free', hrun, ht, hlength, hlarge'⟩ :=
      ih hu hlarge (Nat.lt_of_le_of_lt (by omega) room)
    refine ⟨t, free', Option.bind_eq_some_iff.mpr ⟨u, hstep, hrun⟩, ht, ?_, hlarge'⟩
    rw [hlength, hout, List.length_cons]
    omega

/-- Clients can give back all that they have. -/
theorem Accounts.returnAll (h : s.Accounts free) :
    ∃ t free', run PoolState.step s (s.out.map .retrieve) = some t ∧ t.Accounts free' ∧
      t.out = [] := by
  induction hout : s.out generalizing s free with
  | nil => exact ⟨s, free, rfl, h, hout⟩
  | cons a out ih =>
    have ha : a ∈ s.out := by
      rw [hout]
      exact List.mem_cons_self
    obtain ⟨pool, free₁, hret, h₁⟩ := h.retrieve ha
    have hstep : s.step (.retrieve a) = some ⟨pool, s.out.erase a⟩ := by
      simp only [PoolState.step, if_pos ha, hret]
    obtain ⟨t, free', hrun, ht, hnone⟩ := ih h₁ (by rw [hout, List.erase_cons_head])
    exact ⟨t, free', Option.bind_eq_some_iff.mpr ⟨_, hstep, hrun⟩, ht, hnone⟩

end PoolState

/-- Clients take 512 chunks of 4 MiB and give all of them back: their list has 2 GiB. -/
theorem size_wraps_after_many_returns :
    ∃ s t l, run PoolState.step (.init fun _ _ ↦ 0)
        (List.replicate 512 PoolState.askLargest) = some s ∧
      run PoolState.step s (s.out.map .retrieve) = some t ∧
      Linked t.pool.next (t.pool.head 4194304) l ∧ 512 ≤ l.length ∧ ¬ t.pool.SizesAgree := by
  obtain ⟨free₀, haccounts₀⟩ := PoolState.accounts_init fun _ _ ↦ 0
  have htotal : (PoolState.init fun _ _ ↦ 0).pool.mpTotalSizeKb.toNat = 124160 :=
    congrArg UInt64.toNat (Mempool.counters_new fun _ _ ↦ 0).1
  obtain ⟨s, free, hrun, haccounts, hlength, hlarge⟩ :=
    haccounts₀.askMany (k := 512) nofun (by omega)
  obtain ⟨t, free', hrun', haccounts', hnone⟩ := haccounts.returnAll
  -- nobody has the 512 chunks any more, so they are on their list
  have hsub : s.out ⊆ free' 4194304 := by
    intro a ha
    obtain ⟨hlt, hsame⟩ := PoolState.capacity_of_reach (reach_of_run hrun')
      (haccounts.part.handedOut a ha).1
    rcases haccounts'.part.covered a hlt with hout | hlisted
    · rw [hnone] at hout
      cases hout
    · rwa [hsame, hlarge a ha] at hlisted
  have hmany : 512 ≤ (free' 4194304).length := by
    have hle := haccounts.nodup.length_le_of_subset hsub
    rw [hlength] at hle
    exact Nat.le_of_add_left_le hle
  refine ⟨s, t, _, hrun, hrun', haccounts'.part.linked 4194304, hmany, fun hagree ↦ ?_⟩
  have hfew := haccounts'.sizesAgree_iff.mp hagree 4194304 (by decide) _
    (haccounts'.part.linked 4194304)
  omega

end ConcurrentServer.Memory
