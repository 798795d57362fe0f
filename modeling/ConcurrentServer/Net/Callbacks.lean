import ConcurrentServer.Net.Epoll

/-!
# The callbacks of registered events

`src/net/epoll.cpp:20–84, 101–129`. Each `epoll_add` merges its events into the mask of the map
entry and stores its callback in one of the two slots. `execute_cbs` finds a callback for every
ready event as long as each bit of the mask has its slot filled.
-/

namespace ConcurrentServer.Net
open ConcurrentServer.Base

variable {CB : Type}

/-- Each event of the mask has its callback. -/
def IoEvent.Covered (entry : IoEvent CB) : Prop :=
  (entry.event &&& EPOLLIN ≠ 0 → entry.readCallback.isSome) ∧
    (entry.event &&& EPOLLOUT ≠ 0 → entry.writeCallback.isSome)

/-- `execute_cbs` calls back whenever it is handed a registered event. -/
def IoEvent.Answers (entry : IoEvent CB) : Prop :=
  ∀ events : Mask, events &&& (EPOLLIN ||| EPOLLOUT) ≠ 0 →
    events &&& (EPOLLIN ||| EPOLLOUT) &&& ~~~entry.event = 0 →
      ∃ cb, entry.dispatch events = .call cb

/-- Each event of each mask has its callback. -/
def Epoll.Covered (e : Epoll CB) : Prop :=
  ∀ fd entry, e.epEventMap fd = some entry → entry.Covered

/-- `execute_cbs` skips no registered event. -/
def Epoll.Answers (e : Epoll CB) : Prop :=
  ∀ fd entry, e.epEventMap fd = some entry → entry.Answers

/-- A reduced mask has no new bits. -/
theorem and_not_and_ne_zero {a b bits : Mask} (h : a &&& ~~~b &&& bits ≠ 0) :
    a &&& bits ≠ 0 := by
  intro hzero
  apply h
  rw [BitVec.and_assoc, BitVec.and_comm (~~~b), ← BitVec.and_assoc, hzero]
  exact BitVec.zero_and

namespace IoEvent

variable {entry : IoEvent CB} {event : Mask} {cb : Option CB}

/-- A mask without bits needs no callback. -/
theorem covered_fresh : (fresh : IoEvent CB).Covered := by
  constructor
  · intro hin
    exact absurd BitVec.zero_and hin
  · intro hout
    exact absurd BitVec.zero_and hout

/-- A reduced mask needs no more callbacks. -/
theorem Covered.del (h : entry.Covered) (event : Mask) :
    ({ entry with event := entry.event &&& ~~~event } : IoEvent CB).Covered := by
  constructor
  · intro hin
    exact h.1 (and_not_and_ne_zero hin)
  · intro hout
    exact h.2 (and_not_and_ne_zero hout)

end IoEvent

/-! ### One call -/

namespace Epoll

variable {e : Epoll CB}

/-- Without a key its entry need not be covered. -/
theorem Covered.erase (h : e.Covered) (fd : Int) (e' : Epoll CB)
    (hmap : e'.epEventMap = Function.update e.epEventMap fd none) : e'.Covered := by
  intro fd' entry hfd
  rw [hmap] at hfd
  by_cases hf : fd' = fd
  · rw [hf, Function.update_self] at hfd
    cases hfd
  · rw [Function.update_of_ne hf] at hfd
    exact h fd' entry hfd

/-- With the other entries covered, all are once the new one is. -/
theorem Covered.update_iff (h : e.Covered) {fd : Int} {entry : IoEvent CB} {e' : Epoll CB}
    (hmap : e'.epEventMap = Function.update e.epEventMap fd (some entry)) :
    e'.Covered ↔ entry.Covered := by
  constructor
  · intro h'
    exact h' fd entry (by rw [hmap, Function.update_self])
  · intro hentry fd' entry' hfd
    rw [hmap] at hfd
    by_cases hf : fd' = fd
    · rw [hf, Function.update_self] at hfd
      cases hfd
      exact hentry
    · rw [Function.update_of_ne hf] at hfd
      exact h fd' entry' hfd

/-- The entry that `epoll_add` finds or creates is covered. -/
theorem Covered.entry (h : e.Covered) (fd : Int) :
    ((e.epEventMap fd).getD .fresh).Covered := by
  cases hfd : e.epEventMap fd with
  | none => exact IoEvent.covered_fresh
  | some entry => exact h fd entry hfd

/-- `epoll_del` of some events keeps the masks covered. -/
theorem Covered.delEvent (h : e.Covered) (fd : Int) (event : Mask) (ok : Bool) :
    (epollDel e fd event ok).Covered := by
  rw [epollDel_eq]
  cases hfd : e.epEventMap fd with
  | none => exact h
  | some entry =>
    dsimp only
    split
    · refine h.erase fd _ ?_
      exact Function.update_idem _ _ _
    · exact (h.update_iff rfl).mpr ((h fd entry hfd).del event)

end Epoll

/-! ### Histories -/

end ConcurrentServer.Net
