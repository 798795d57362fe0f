import ConcurrentServer.Base.Int32
import ConcurrentServer.Base.Window

/-!
# Chunks

`src/memory/chunk.h`, `src/memory/chunk.cpp`. A chunk is named by the order in which chunks are
created; its block is a memory of its own, so that a store beyond `capacity` is seen as one.
`int` fields wrap around. A `memcpy` or `memmove` of a negative size copies nothing here.
-/

namespace ConcurrentServer.Memory
open ConcurrentServer.Base

/-- `Chunk`. -/
structure Chunk where
  capacity : Int
  length : Int
  head : Int
  data : Int → UInt8
  next : Option Nat

namespace Chunk

/-- `Chunk::Chunk`; `block` is what `new char[size]` finds in its memory. -/
def new (size : Int) (block : Int → UInt8) : Chunk where
  capacity := size
  length := 0
  head := 0
  data := block
  next := none

/-- The `length` bytes from `head` on. -/
def bytes (c : Chunk) : List UInt8 := window c.data c.head c.length

/-- `Chunk::adjust`. -/
def adjust (c : Chunk) : Chunk :=
  if c.head ≠ 0 then
    let data := if c.length ≠ 0 then storeAt c.data 0 (window c.data c.head c.length) else c.data
    { c with data := data, head := 0 }
  else c

/-- `Chunk::copy`. -/
def copy (c other : Chunk) : Chunk :=
  { c with
    data := storeAt c.data 0 (window other.data other.head other.length)
    head := 0
    length := other.length }

/-- `Chunk::pop`. -/
def pop (c : Chunk) (len : Int) : Chunk :=
  { c with length := int32 (c.length - len), head := int32 (c.head + len) }

/-- Bytes stored behind the used part, as `memcpy(data + length, …)` and `read` do. -/
def storeBehind (c : Chunk) (values : List UInt8) : Chunk :=
  { c with data := storeAt c.data c.length values }

/-- `length += n`. -/
def grow (c : Chunk) (n : Int) : Chunk := { c with length := int32 (c.length + n) }

/-- The first two statements of `retrieve`. -/
def reset (c : Chunk) : Chunk := { c with length := 0, head := 0 }

@[simp] theorem capacity_adjust (c : Chunk) : c.adjust.capacity = c.capacity := by
  unfold adjust
  split <;> rfl

@[simp] theorem head_adjust (c : Chunk) : c.adjust.head = 0 := by
  unfold adjust
  split
  · rfl
  · next h => exact not_not.mp h

@[simp] theorem length_adjust (c : Chunk) : c.adjust.length = c.length := by
  unfold adjust
  split <;> rfl

@[simp] theorem capacity_copy (c other : Chunk) : (c.copy other).capacity = c.capacity := rfl

@[simp] theorem capacity_pop (c : Chunk) (len : Int) : (c.pop len).capacity = c.capacity := rfl

@[simp] theorem capacity_storeBehind (c : Chunk) (values : List UInt8) :
    (c.storeBehind values).capacity = c.capacity := rfl

@[simp] theorem capacity_grow (c : Chunk) (n : Int) : (c.grow n).capacity = c.capacity := rfl

/-- A change of the chunk stores nothing at or beyond its capacity, whatever the block holds. -/
def StoresInside (c : Chunk) (f : Chunk → Chunk) : Prop :=
  ∀ (data : Int → UInt8) (i : Int), c.capacity ≤ i → (f { c with data := data }).data i = data i

theorem storesInside_pop (c : Chunk) (len : Int) : c.StoresInside (·.pop len) :=
  fun _ _ _ ↦ rfl

theorem storesInside_grow (c : Chunk) (n : Int) : c.StoresInside (·.grow n) :=
  fun _ _ _ ↦ rfl

/-- What is stored behind the used part is inside if it fits. -/
theorem storesInside_storeBehind {c : Chunk} {values : List UInt8}
    (fits : c.length + values.length ≤ c.capacity) : c.StoresInside (·.storeBehind values) :=
  fun _ _ hi ↦ storeAt_of_le (Int.le_trans fits hi)

/-- A copy is inside if the original fits. -/
theorem storesInside_copy {c other : Chunk} (fits : other.length ≤ c.capacity)
    (capacity : 0 ≤ c.capacity) : c.StoresInside (·.copy other) := by
  intro data i hi
  apply storeAt_of_le
  rw [length_window]
  omega

/-- The used part of a chunk is not longer than the chunk, and no chunk exceeds the largest
class. -/
structure Within (c : Chunk) : Prop where
  length : 0 ≤ c.length
  fits : c.length ≤ c.capacity
  capacity : c.capacity ≤ 4194304

/-- Compaction is inside if the used part fits. -/
theorem Within.storesInside_adjust {c : Chunk} (h : c.Within) : c.StoresInside adjust := by
  obtain ⟨hlength, hfits, -⟩ := h
  intro data i hi
  unfold adjust
  dsimp only
  split
  · split
    · apply storeAt_of_le
      rw [length_window]
      omega
    · rfl
  · rfl

/-- A new chunk holds no bytes. -/
theorem bytes_of_length_zero {c : Chunk} (h : c.length = 0) : c.bytes = [] := by
  rw [bytes, h]
  rfl

/-- Compaction moves the bytes and changes none. -/
theorem bytes_adjust {c : Chunk} (h : 0 ≤ c.length) : c.adjust.bytes = c.bytes := by
  unfold adjust bytes
  split
  · dsimp only
    split
    · exact window_storeAt_window h
    · next hlen =>
      rw [not_not.mp hlen]
      rfl
  · rfl

/-- A copy holds the bytes of the original. -/
theorem bytes_copy (c : Chunk) {other : Chunk} (h : 0 ≤ other.length) :
    (c.copy other).bytes = other.bytes :=
  window_storeAt_window h

/-- Popping drops bytes in front. -/
theorem bytes_pop {c : Chunk} {len : Int} (hlen : 0 ≤ len)
    (length : int32 (c.length - len) = c.length - len)
    (head : int32 (c.head + len) = c.head + len) :
    (c.pop len).bytes = c.bytes.drop len.toNat := by
  rw [bytes, pop, length, head, bytes, window_drop hlen]

/-- Storing behind the used part and growing by as much appends. -/
theorem bytes_append {c : Chunk} {values : List UInt8} (hhead : c.head = 0)
    (hlen : 0 ≤ c.length)
    (length : int32 (c.length + values.length) = c.length + values.length) :
    ((c.storeBehind values).grow values.length).bytes = c.bytes ++ values := by
  have happend : window (storeAt c.data (0 + c.length) values) 0 (c.length + values.length) = _ :=
    window_storeAt_append hlen
  rw [Int.zero_add] at happend
  rw [bytes, grow, storeBehind, length, bytes, hhead, happend]

end Chunk

end ConcurrentServer.Memory
