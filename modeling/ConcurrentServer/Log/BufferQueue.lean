import ConcurrentServer.Base.Fifo
import ConcurrentServer.Base.Ring
import ConcurrentServer.Base.Run

/-!
# The log's buffer queue

`src/log/log_queue.h`. `b_array` gives a value to every index; cells that were never stored, and
indexes outside the array, hold arbitrary values. The cursors and the size stay between −1 and
`capacity`, so that nothing wraps; the counters are 64 bits wide. Any number of `pop` calls run
beside each other. What a call does under `b_mutex` is one step, except that a `pop` that finds
the queue empty keeps the mutex until it blocks, and `notify`, which takes no lock, can come in
between. A wait may end at any time; a timed one may also report a timeout at any time.
-/

namespace ConcurrentServer.Log
open ConcurrentServer.Base

/-- `buffer_queue`; `src/log/log_queue.h:202–214`. -/
structure BufferQueue (T : Type) where
  bArray : Int → T
  bRcnt : BitVec 64
  bWcnt : BitVec 64
  bDebug : Bool
  bFirst : Int
  bLast : Int
  bSize : Int
  capacity : Int

variable {T : Type}

namespace BufferQueue

/-- The member initialisers; `src/log/log_queue.h:202–214`. -/
def fresh (cells : Int → T) (maxSize : Int) (debug : Bool) : BufferQueue T :=
  ⟨cells, 0, 0, debug, -1, -1, 0, maxSize⟩

/-- The constructor; `src/log/log_queue.h:24–36`. -/
def new (cells : Int → T) (maxSize : Int) (debug : Bool) : Except String (BufferQueue T) :=
  if maxSize ≤ 0 then .error "max_size is illegal!" else .ok (fresh cells maxSize debug)

/-- `buffer_queue::clear`; `src/log/log_queue.h:38–49`. -/
def clear (q : BufferQueue T) : BufferQueue T :=
  { q with
    bRcnt := if q.bDebug then 0 else q.bRcnt
    bWcnt := if q.bDebug then 0 else q.bWcnt
    bFirst := -1
    bLast := -1
    bSize := 0 }

/-- `buffer_queue::get_rcnt`, which returns an `int`; `src/log/log_queue.h:58–67`. -/
def getRcnt (q : BufferQueue T) : Int := if q.bDebug then (q.bRcnt.setWidth 32).toInt else -1

/-- `buffer_queue::get_wcnt`; `src/log/log_queue.h:69–78`. -/
def getWcnt (q : BufferQueue T) : Int := if q.bDebug then (q.bWcnt.setWidth 32).toInt else -1

/-- `buffer_queue::get_size`; `none` when the assertion fails; `src/log/log_queue.h:80–85`. -/
def getSize (q : BufferQueue T) : Option Int :=
  if 0 ≤ q.bSize ∧ q.bSize ≤ q.capacity then some q.bSize else none

/-- `buffer_queue::is_full`; `src/log/log_queue.h:87–91`. -/
def isFull (q : BufferQueue T) : Bool := q.bSize == q.capacity

/-- `buffer_queue::is_empty`; `src/log/log_queue.h:93–97`. -/
def isEmpty (q : BufferQueue T) : Bool := q.bSize == 0

/-- `buffer_queue::get_capacity`; `src/log/log_queue.h:99–102`. -/
def getCapacity (q : BufferQueue T) : Int := q.capacity

/-- `buffer_queue::front`; `src/log/log_queue.h:104–113`. -/
def front (q : BufferQueue T) : Option T :=
  if q.bSize = 0 then none else some (q.bArray (q.bFirst + 1))

/-- `buffer_queue::back`; `src/log/log_queue.h:115–124`. -/
def back (q : BufferQueue T) : Option T :=
  if q.bSize = 0 then none else some (q.bArray q.bLast)

/-- The rest of `buffer_queue::push` on a queue that is not full;
`src/log/log_queue.h:135–142`. -/
def store (q : BufferQueue T) (item : T) : BufferQueue T :=
  let last := (q.bLast + 1).tmod q.capacity
  { q with
    bLast := last
    bArray := Function.update q.bArray last item
    bSize := q.bSize + 1
    bWcnt := if q.bDebug then q.bWcnt + 1 else q.bWcnt }

/-- `buffer_queue::push`; `src/log/log_queue.h:126–146`. -/
def push (q : BufferQueue T) (item : T) : Bool × BufferQueue T :=
  if q.bSize ≥ q.capacity then (false, q) else (true, q.store item)

/-- The rest of both `buffer_queue::pop` on a queue that is not empty;
`src/log/log_queue.h:166–172, 191–197`. -/
def take (q : BufferQueue T) : T × BufferQueue T :=
  let first := (q.bFirst + 1).tmod q.capacity
  (q.bArray first,
    { q with
      bFirst := first
      bSize := q.bSize - 1
      bRcnt := if q.bDebug then q.bRcnt + 1 else q.bRcnt })

/-- The queue holds the items of `l`, the oldest first. -/
structure Holds (q : BufferQueue T) (l : List T) : Prop where
  items : l = window (unrolled q.bArray q.capacity) (q.bFirst + 1) q.bSize
  capacity : 1 ≤ q.capacity
  size : 0 ≤ q.bSize ∧ q.bSize ≤ q.capacity
  first : -1 ≤ q.bFirst ∧ q.bFirst < q.capacity
  last : -1 ≤ q.bLast ∧ q.bLast < q.capacity
  /-- The newest item is `b_size` cells behind `b_first`, around the ring. -/
  cursors : q.bLast + 1 ≡ q.bFirst + 1 + q.bSize [ZMOD q.capacity]
  stored : 0 < q.bSize → 0 ≤ q.bLast
  counted : q.bDebug = true → q.bWcnt - q.bRcnt = BitVec.ofInt 64 q.bSize

variable {q : BufferQueue T} {l : List T}

/-- A fresh queue holds nothing. -/
theorem holds_fresh {cells : Int → T} {maxSize : Int} {debug : Bool} (h : 1 ≤ maxSize) :
    (fresh cells maxSize debug).Holds [] := by
  constructor
  · rfl
  · exact h
  · exact ⟨Int.le_refl 0, by show 0 ≤ maxSize; omega⟩
  · exact ⟨Int.le_refl _, by show -1 < maxSize; omega⟩
  · exact ⟨Int.le_refl _, by show -1 < maxSize; omega⟩
  · exact Int.ModEq.refl _
  · intro hsize
    exact absurd hsize (Int.lt_irrefl 0)
  · intro _
    show 0#64 - 0#64 = BitVec.ofInt 64 0
    decide

/-- What was constructed holds nothing. -/
theorem holds_new {cells : Int → T} {maxSize : Int} {debug : Bool}
    (h : new cells maxSize debug = .ok q) : q.Holds [] := by
  unfold new at h
  split at h
  · cases h
  · cases h
    apply holds_fresh
    omega

/-- A cleared queue holds nothing. -/
theorem Holds.clear (h : q.Holds l) : q.clear.Holds [] := by
  have hcap := h.capacity
  constructor
  · rfl
  · exact hcap
  · exact ⟨Int.le_refl 0, by show 0 ≤ q.capacity; omega⟩
  · exact ⟨Int.le_refl _, by show -1 < q.capacity; omega⟩
  · exact ⟨Int.le_refl _, by show -1 < q.capacity; omega⟩
  · exact Int.ModEq.refl _
  · intro hsize
    exact absurd hsize (Int.lt_irrefl 0)
  · intro hdebug
    show (if q.bDebug then 0 else q.bWcnt) - (if q.bDebug then 0 else q.bRcnt) =
      BitVec.ofInt 64 0
    rw [show q.bDebug = true from hdebug, if_pos rfl, if_pos rfl]
    decide

/-- The number of items. -/
theorem Holds.length (h : q.Holds l) : (l.length : Int) = q.bSize := by
  have hsize := h.size.1
  rw [h.items, length_window]
  omega

/-- A full queue is one whose items fill the capacity. -/
theorem Holds.full (h : q.Holds l) : q.bSize ≥ q.capacity ↔ q.capacity.toNat ≤ l.length := by
  have hlen := h.length
  have hcap := h.capacity
  constructor <;> intro _ <;> omega

/-- The cursor behind the next cell, as the code computes it. -/
theorem tmod_cursor {c capacity : Int} (lo : -1 ≤ c) :
    (c + 1).tmod capacity = (c + 1) % capacity :=
  Int.tmod_eq_emod_of_nonneg (by omega)

/-- A cursor that was moved on is an index of the array. -/
theorem emod_range {c capacity : Int} (h : 1 ≤ capacity) :
    0 ≤ c % capacity ∧ c % capacity < capacity :=
  ⟨Int.emod_nonneg c (by omega), Int.emod_lt_of_pos c (by omega)⟩

/-- A store appends its item. -/
theorem Holds.store (h : q.Holds l) (item : T) (room : ¬ q.bSize ≥ q.capacity) :
    (q.store item).Holds (l ++ [item]) := by
  have hcap := h.capacity
  have hsize := h.size
  have hrange := emod_range (c := q.bLast + 1) hcap
  have hmod : (q.bLast + 1).tmod q.capacity = (q.bLast + 1) % q.capacity := tmod_cursor h.last.1
  constructor
  · show l ++ [item] = window (unrolled (Function.update q.bArray
      ((q.bLast + 1).tmod q.capacity) item) q.capacity) (q.bFirst + 1) (q.bSize + 1)
    rw [hmod, window_unrolled_push item h.cursors hsize.1 (by omega), ← h.items]
  · exact hcap
  · show 0 ≤ q.bSize + 1 ∧ q.bSize + 1 ≤ q.capacity
    omega
  · exact h.first
  · show -1 ≤ (q.bLast + 1).tmod q.capacity ∧ (q.bLast + 1).tmod q.capacity < q.capacity
    rw [hmod]
    omega
  · show (q.bLast + 1).tmod q.capacity + 1 ≡ q.bFirst + 1 + (q.bSize + 1) [ZMOD q.capacity]
    rw [hmod, ← Int.add_assoc]
    exact ((Int.mod_modEq _ _).trans h.cursors).add_right 1
  · intro _
    show 0 ≤ (q.bLast + 1).tmod q.capacity
    rw [hmod]
    exact hrange.1
  · intro hdebug
    show (if q.bDebug then q.bWcnt + 1 else q.bWcnt) - q.bRcnt = BitVec.ofInt 64 (q.bSize + 1)
    rw [show q.bDebug = true from hdebug, BitVec.ofInt_add, ← h.counted hdebug]
    show q.bWcnt + 1#64 - q.bRcnt = q.bWcnt - q.bRcnt + 1#64
    rw [BitVec.sub_eq_add_neg, BitVec.sub_eq_add_neg]
    ac_rfl

/-- What is taken is the oldest item, and the others are left. -/
theorem Holds.take (h : q.Holds l) (some_ : ¬ q.bSize ≤ 0) :
    ∃ l', l = q.take.1 :: l' ∧ q.take.2.Holds l' := by
  have hcap := h.capacity
  have hsize := h.size
  have hrange := emod_range (c := q.bFirst + 1) hcap
  have hmod : (q.bFirst + 1).tmod q.capacity = (q.bFirst + 1) % q.capacity :=
    tmod_cursor h.first.1
  have hnext : (q.bFirst + 1) % q.capacity + 1 ≡ q.bFirst + 1 + 1 [ZMOD q.capacity] :=
    (Int.mod_modEq _ _).add_right 1
  refine ⟨window (unrolled q.bArray q.capacity) (q.bFirst + 1 + 1) (q.bSize - 1), ?_, ?_⟩
  · show l = q.bArray ((q.bFirst + 1).tmod q.capacity) :: _
    rw [hmod, h.items]
    exact window_unrolled_pop (by omega)
  constructor
  · show _ = window (unrolled q.bArray q.capacity) ((q.bFirst + 1).tmod q.capacity + 1)
      (q.bSize - 1)
    rw [hmod]
    exact window_unrolled_congr hnext.symm
  · exact hcap
  · show 0 ≤ q.bSize - 1 ∧ q.bSize - 1 ≤ q.capacity
    omega
  · show -1 ≤ (q.bFirst + 1).tmod q.capacity ∧ (q.bFirst + 1).tmod q.capacity < q.capacity
    rw [hmod]
    omega
  · exact h.last
  · show q.bLast + 1 ≡ (q.bFirst + 1).tmod q.capacity + 1 + (q.bSize - 1) [ZMOD q.capacity]
    rw [hmod]
    apply h.cursors.trans
    rw [show q.bFirst + 1 + q.bSize = q.bFirst + 1 + 1 + (q.bSize - 1) by omega]
    exact (hnext.symm).add_right (q.bSize - 1)
  · intro _
    apply h.stored
    omega
  · intro hdebug
    show q.bWcnt - (if q.bDebug then q.bRcnt + 1 else q.bRcnt) = BitVec.ofInt 64 (q.bSize - 1)
    have hone : BitVec.ofInt 64 q.bSize = BitVec.ofInt 64 (q.bSize - 1) + 1#64 := by
      rw [show q.bSize = q.bSize - 1 + 1 by omega, BitVec.ofInt_add]
      rw [show q.bSize - 1 + 1 - 1 = q.bSize - 1 by omega]
      rfl
    have hcount := h.counted hdebug
    rw [hone] at hcount
    rw [show q.bDebug = true from hdebug]
    have hsub : q.bWcnt - (q.bRcnt + 1#64) = q.bWcnt - q.bRcnt - 1#64 := by
      rw [BitVec.sub_eq_add_neg, BitVec.sub_eq_add_neg, BitVec.sub_eq_add_neg, BitVec.neg_add]
      ac_rfl
    show q.bWcnt - (q.bRcnt + 1#64) = _
    rw [hsub, hcount, BitVec.add_sub_cancel]

end BufferQueue

end ConcurrentServer.Log
