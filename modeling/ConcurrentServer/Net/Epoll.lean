import ConcurrentServer.Base.Run
import Mathlib.Data.Finset.Basic
import Mathlib.Logic.Function.Basic

/-!
# The epoll wrapper and the kernel's interest set

`src/net/epoll.h:17–51`, `src/net/epoll.cpp:20–84`. The wrapper keeps the interest set
twice, in `ep_event_map` and in `ep_listen_fds`; the kernel keeps the third copy. Each
method is split at its `epoll_ctl` call, so that other threads can be scheduled between
the two halves. Every `epoll_ctl` call may fail; a failed call leaves the kernel's set as
it was. Callbacks are opaque values of a type `CB`; an empty `std::function` is `none`.
-/

namespace ConcurrentServer.Net
open ConcurrentServer.Base

/-- The event masks of `epoll_event::events` and `io_event::event`. -/
abbrev Mask := BitVec 32

/-- Readable. -/
def EPOLLIN : Mask := 0x001#32
/-- Writable. -/
def EPOLLOUT : Mask := 0x004#32
/-- Error condition. -/
def EPOLLERR : Mask := 0x008#32
/-- Hang-up. -/
def EPOLLHUP : Mask := 0x010#32

/-- The operation of an `epoll_ctl` call. -/
inductive CtlOp
  | add
  | mod
  | del
  deriving DecidableEq, Repr

/-- `Epoll::io_event`; `src/net/epoll.h:17–22`. -/
structure IoEvent (CB : Type) where
  event : Mask
  readCallback : Option CB
  writeCallback : Option CB
  deriving DecidableEq, Repr

/-- The entry that `ep_event_map[fd]` creates for an absent key. -/
def IoEvent.fresh {CB : Type} : IoEvent CB := ⟨0, none, none⟩

/-- `Epoll` together with the interest set of its `ep_epoll_fd` in the kernel. -/
structure Epoll (CB : Type) where
  epEventMap : Int → Option (IoEvent CB)
  epListenFds : Finset Int
  interest : Int → Option Mask

variable {CB : Type}

/-- A constructed `Epoll`; `src/net/epoll.cpp:13`. -/
def Epoll.init : Epoll CB := ⟨fun _ ↦ none, ∅, fun _ ↦ none⟩

/-- `epoll_ctl`: `none` is the return value −1. A call whose outcome `ok` is a failure, an
`add` of a registered and a `mod` or `del` of an unregistered descriptor all fail. -/
def epollCtl (interest : Int → Option Mask) (op : CtlOp) (fd : Int) (ev : Mask) (ok : Bool) :
    Option (Int → Option Mask) :=
  match op with
  | .add =>
    if ok ∧ interest fd = none then some (Function.update interest fd (some ev)) else none
  | .mod =>
    if ok ∧ interest fd ≠ none then some (Function.update interest fd (some ev)) else none
  | .del =>
    if ok ∧ interest fd ≠ none then some (Function.update interest fd none) else none

/-- The operation and the mask that `epoll_add` passes to `epoll_ctl`;
`src/net/epoll.cpp:24–31`. -/
def epollAddOp (e : Epoll CB) (fd : Int) (event : Mask) : CtlOp × Mask :=
  match e.epEventMap fd with
  | none => (.add, event)
  | some ret => (.mod, ret.event ||| event)

/-- The callback slot that `epoll_add` overwrites; `src/net/epoll.cpp:33–38`. -/
def IoEvent.setCallback (entry : IoEvent CB) (event : Mask) (cb : Option CB) : IoEvent CB :=
  if event &&& EPOLLIN ≠ 0 then { entry with readCallback := cb }
  else if event &&& EPOLLOUT ≠ 0 then { entry with writeCallback := cb }
  else entry

/-- `Epoll::epoll_add` up to its `epoll_ctl` call; `src/net/epoll.cpp:24–40`. -/
def epollAddMap (e : Epoll CB) (fd : Int) (event : Mask) (cb : Option CB) : Epoll CB :=
  let entry := ((e.epEventMap fd).getD .fresh).setCallback event cb
  { e with
    epEventMap := Function.update e.epEventMap fd
      (some { entry with event := (epollAddOp e fd event).2 }) }

/-- `Epoll::epoll_add` from its `epoll_ctl` call on; `src/net/epoll.cpp:42–50`. -/
def epollAddCtl (e : Epoll CB) (op : CtlOp) (fd : Int) (ev : Mask) (ok : Bool) : Epoll CB :=
  match epollCtl e.interest op fd ev ok with
  | none => e
  | some interest => { e with interest := interest, epListenFds := insert fd e.epListenFds }

/-- `Epoll::epoll_add`; `src/net/epoll.cpp:20–51`. -/
def epollAdd (e : Epoll CB) (fd : Int) (event : Mask) (cb : Option CB) (ok : Bool) : Epoll CB :=
  epollAddCtl (epollAddMap e fd event cb) (epollAddOp e fd event).1 fd
    (epollAddOp e fd event).2 ok

/-- `Epoll::epoll_del(int fd)`, first statement; `src/net/epoll.cpp:79`. -/
def epollDelMap (e : Epoll CB) (fd : Int) : Epoll CB :=
  { e with epEventMap := Function.update e.epEventMap fd none }

/-- `Epoll::epoll_del(int fd)`, the other two statements; `src/net/epoll.cpp:81–83`. The
result of `epoll_ctl` is ignored. -/
def epollDelCtl (e : Epoll CB) (fd : Int) (ok : Bool) : Epoll CB :=
  { e with
    epListenFds := e.epListenFds.erase fd
    interest := (epollCtl e.interest .del fd 0 ok).getD e.interest }

/-- `Epoll::epoll_del(int fd)`; `src/net/epoll.cpp:77–84`. -/
def epollDelFd (e : Epoll CB) (fd : Int) (ok : Bool) : Epoll CB :=
  epollDelCtl (epollDelMap e fd) fd ok

/-- `Epoll::epoll_del(int fd, int event)` up to its `epoll_ctl` call, with the operation and
the mask of that call; `src/net/epoll.cpp:55–68`. The mask of the map entry is overwritten
before the branch, through the reference `target_event`. An absent descriptor makes no call. -/
def epollDelEventMap (e : Epoll CB) (fd : Int) (event : Mask) :
    Epoll CB × Option (CtlOp × Mask) :=
  match e.epEventMap fd with
  | none => (e, none)
  | some ret =>
    let targetEvent := ret.event &&& ~~~event
    let e' : Epoll CB :=
      { e with
        epEventMap := Function.update e.epEventMap fd (some { ret with event := targetEvent }) }
    if targetEvent = 0 then (epollDelMap e' fd, some (.del, 0))
    else (e', some (.mod, targetEvent))

/-- Without a call to make, `epoll_del` has left the epoller as it was. -/
theorem epollDelEventMap_fst_of_none {e : Epoll CB} {fd : Int} {event : Mask}
    (h : (epollDelEventMap e fd event).2 = none) : (epollDelEventMap e fd event).1 = e := by
  unfold epollDelEventMap at h ⊢
  cases hm : e.epEventMap fd with
  | none => rfl
  | some ret =>
    rw [hm] at h
    dsimp only at h
    split at h <;> cases h

/-- `Epoll::epoll_del(int fd, int event)` from its `epoll_ctl` call on;
`src/net/epoll.cpp:63–73`. The call never adds. -/
def epollDelEventCtl (e : Epoll CB) (op : CtlOp) (fd : Int) (ev : Mask) (ok : Bool) : Epoll CB :=
  match op with
  | .del => epollDelCtl e fd ok
  | .add | .mod => { e with interest := (epollCtl e.interest .mod fd ev ok).getD e.interest }

/-- `Epoll::epoll_del(int fd, int event)`; `src/net/epoll.cpp:54–75`. -/
def epollDel (e : Epoll CB) (fd : Int) (event : Mask) (ok : Bool) : Epoll CB :=
  match epollDelEventMap e fd event with
  | (e', none) => e'
  | (e', some (op, ev)) => epollDelEventCtl e' op fd ev ok

/-- What `execute_cbs` does for one ready event. -/
inductive Dispatch (CB : Type)
  | call (cb : CB)
  | nothing
  | delFd
  deriving DecidableEq, Repr

/-- The branches of `execute_cbs` for an entry and the reported events;
`src/net/epoll.cpp:106–127`. -/
def IoEvent.dispatch (entry : IoEvent CB) (events : Mask) : Dispatch CB :=
  if events &&& EPOLLIN ≠ 0 then entry.readCallback.elim .nothing .call
  else if events &&& EPOLLOUT ≠ 0 then entry.writeCallback.elim .nothing .call
  else if events &&& (EPOLLHUP ||| EPOLLERR) ≠ 0 then
    match entry.readCallback, entry.writeCallback with
    | some cb, _ => .call cb
    | none, some cb => .call cb
    | none, none => .delFd
  else .nothing

/-- A public call, with the outcome of its `epoll_ctl`. -/
inductive EpollCall (CB : Type)
  | add (fd : Int) (event : Mask) (cb : Option CB) (ok : Bool)
  | delEvent (fd : Int) (event : Mask) (ok : Bool)
  | del (fd : Int) (ok : Bool)
  deriving DecidableEq, Repr

/-- The effect of one call. -/
def Epoll.apply (e : Epoll CB) : EpollCall CB → Epoll CB
  | .add fd event cb ok => epollAdd e fd event cb ok
  | .delEvent fd event ok => epollDel e fd event ok
  | .del fd ok => epollDelFd e fd ok

/-! ### Agreement of the three copies -/

/-- The three copies agree on one descriptor, with the same mask in map and kernel. -/
def Epoll.AgreeAt (e : Epoll CB) (fd : Int) : Prop :=
  e.interest fd = (e.epEventMap fd).map IoEvent.event ∧
    (fd ∈ e.epListenFds ↔ (e.epEventMap fd).isSome)

/-- The bookkeeping agrees with the kernel. -/
def Epoll.Agree (e : Epoll CB) : Prop := ∀ fd, e.AgreeAt fd

/-- A failed `epoll_add` leaves the bookkeeping as it was, so that the same call made again
issues the same `epoll_ctl` operation. -/
def AddKept (e : Epoll CB) (c : EpollCall CB) (e' : Epoll CB) : Prop :=
  match c with
  | .add fd event _ ok =>
    epollCtl e.interest (epollAddOp e fd event).1 fd (epollAddOp e fd event).2 ok = none →
      e'.epEventMap = e.epEventMap ∧ e'.epListenFds = e.epListenFds ∧
        epollAddOp e' fd event = epollAddOp e fd event
  | .delEvent _ _ _ => True
  | .del _ _ => True

/-- The call's `epoll_ctl` succeeds, or the call asks for nothing that its failure could
leave half done: an `epoll_add` of a mask and a callback that the entry already holds, an
`epoll_del` of bits that the entry does not hold, an `epoll_del` of an absent descriptor. -/
def NothingToUndo (e : Epoll CB) : EpollCall CB → Prop
  | .add fd event cb ok =>
    ok = true ∨ ∃ entry, e.epEventMap fd = some entry ∧
      entry.event ||| event = entry.event ∧ entry.setCallback event cb = entry
  | .delEvent fd event ok =>
    ok = true ∨ e.epEventMap fd = none ∨ ∃ entry, e.epEventMap fd = some entry ∧
      entry.event &&& ~~~event = entry.event ∧ entry.event ≠ 0
  | .del fd ok => ok = true ∨ e.epEventMap fd = none

/-- A constructed `Epoll` watches nothing anywhere. -/
theorem agree_init : (Epoll.init : Epoll CB).Agree := by
  intro fd
  simp [Epoll.AgreeAt, Epoll.init]


/-! ### One call -/

/-- The descriptor of a call. -/
def EpollCall.fd : EpollCall CB → Int
  | .add fd _ _ _ => fd
  | .delEvent fd _ _ => fd
  | .del fd _ => fd

/-- Whether the `epoll_ctl` of a call succeeds. -/
def EpollCall.ok : EpollCall CB → Bool
  | .add _ _ _ ok => ok
  | .delEvent _ _ ok => ok
  | .del _ ok => ok

/-- Replacing a callback keeps the mask. -/
@[simp] theorem event_setCallback (entry : IoEvent CB) (event : Mask) (cb : Option CB) :
    (entry.setCallback event cb).event = entry.event := by
  unfold IoEvent.setCallback
  split
  · rfl
  · split <;> rfl

private theorem addEntry_eq_iff (entry : IoEvent CB) (event final : Mask) (cb : Option CB) :
    ({ entry.setCallback event cb with event := final } : IoEvent CB) = entry ↔
      final = entry.event ∧ entry.setCallback event cb = entry := by
  constructor
  · intro h
    have hev : final = entry.event := congrArg IoEvent.event h
    subst hev
    refine ⟨rfl, ?_⟩
    rw [← event_setCallback entry event cb] at h
    exact h
  · rintro ⟨rfl, hcb⟩
    rw [hcb]

/-- A successful `epoll_ctl` concerns its own descriptor only. -/
theorem epollCtl_other {interest interest' : Int → Option Mask} {op : CtlOp} {fd fd' : Int}
    {ev : Mask} {ok : Bool} (h : epollCtl interest op fd ev ok = some interest')
    (hne : fd' ≠ fd) : interest' fd' = interest fd' := by
  cases op with
  | add =>
    simp only [epollCtl] at h
    split at h
    · cases h; simp [hne]
    · cases h
  | mod =>
    simp only [epollCtl] at h
    split at h
    · cases h; simp [hne]
    · cases h
  | del =>
    simp only [epollCtl] at h
    split at h
    · cases h; simp [hne]
    · cases h

private theorem getD_epollCtl_other (interest : Int → Option Mask) (op : CtlOp) (fd fd' : Int)
    (ev : Mask) (ok : Bool) (hne : fd' ≠ fd) :
    ((epollCtl interest op fd ev ok).getD interest) fd' = interest fd' := by
  cases h : epollCtl interest op fd ev ok with
  | none => rfl
  | some interest' => exact epollCtl_other h hne

private theorem agreeAt_epollDelFd_other (e : Epoll CB) (fd fd' : Int) (ok : Bool)
    (hne : fd' ≠ fd) : (epollDelFd e fd ok).AgreeAt fd' ↔ e.AgreeAt fd' := by
  simp only [Epoll.AgreeAt, epollDelFd, epollDelCtl, epollDelMap,
    Function.update_of_ne hne, Finset.mem_erase, ne_eq, hne, not_false_eq_true, true_and]
  rw [getD_epollCtl_other _ _ _ _ _ _ hne]

/-- The three cases of `epoll_del(fd, event)`: no entry, no bit left, some bit left. -/
theorem epollDel_eq (e : Epoll CB) (fd : Int) (event : Mask) (ok : Bool) :
    epollDel e fd event ok =
      match e.epEventMap fd with
      | none => e
      | some ret =>
        let e' : Epoll CB :=
          { e with
            epEventMap := Function.update e.epEventMap fd
              (some { ret with event := ret.event &&& ~~~event }) }
        if ret.event &&& ~~~event = 0 then epollDelFd e' fd ok
        else { e' with
          interest :=
            (epollCtl e.interest .mod fd (ret.event &&& ~~~event) ok).getD e.interest } := by
  unfold epollDel epollDelEventMap
  cases e.epEventMap fd with
  | none => rfl
  | some ret =>
    dsimp only
    by_cases h : ret.event &&& ~~~event = 0
    · rw [if_pos h, if_pos h]; rfl
    · rw [if_neg h, if_neg h]; rfl

/-- A call leaves the three copies of every other descriptor alone. -/
theorem agreeAt_apply_other (e : Epoll CB) (c : EpollCall CB) (fd' : Int) (hne : fd' ≠ c.fd) :
    (e.apply c).AgreeAt fd' ↔ e.AgreeAt fd' := by
  cases c with
  | add fd event cb ok =>
    change fd' ≠ fd at hne
    simp only [Epoll.apply, epollAdd, epollAddCtl, epollAddMap]
    cases h : epollCtl e.interest (epollAddOp e fd event).1 fd (epollAddOp e fd event).2 ok with
    | none => simp [Epoll.AgreeAt, hne]
    | some interest => simp [Epoll.AgreeAt, hne, epollCtl_other h hne]
  | delEvent fd event ok =>
    change fd' ≠ fd at hne
    simp only [Epoll.apply, epollDel_eq]
    cases hm : e.epEventMap fd with
    | none => exact Iff.rfl
    | some ret =>
      dsimp only
      split
      · rw [agreeAt_epollDelFd_other _ _ _ _ hne]
        simp [Epoll.AgreeAt, hne]
      · simp only [Epoll.AgreeAt, Function.update_of_ne hne]
        rw [getD_epollCtl_other _ _ _ _ _ _ hne]
  | del fd ok => exact agreeAt_epollDelFd_other e fd fd' ok hne

/-- After a call from an agreeing state, agreement is a matter of the call's descriptor. -/
theorem agree_apply_iff (e : Epoll CB) (c : EpollCall CB) (h : e.Agree) :
    (e.apply c).Agree ↔ (e.apply c).AgreeAt c.fd := by
  constructor
  · exact fun hall ↦ hall c.fd
  · intro hat fd'
    by_cases hne : fd' = c.fd
    · rw [hne]; exact hat
    · exact (agreeAt_apply_other e c fd' hne).mpr (h fd')

private theorem agree_add_iff (e : Epoll CB) (fd : Int) (event : Mask) (cb : Option CB)
    (ok : Bool) (h : e.Agree) :
    ((e.apply (.add fd event cb ok)).Agree ∧
      AddKept e (.add fd event cb ok) (e.apply (.add fd event cb ok))) ↔
      NothingToUndo e (.add fd event cb ok) := by
  rw [agree_apply_iff e _ h]
  obtain ⟨hk, hl⟩ := h fd
  simp only [EpollCall.fd, Epoll.apply, AddKept, NothingToUndo]
  cases hm : e.epEventMap fd with
  | none =>
    -- the kernel does not have the descriptor, the map has it from here on
    rw [hm, Option.map_none] at hk
    cases ok <;> simp [Epoll.AgreeAt, epollAdd, epollAddCtl, epollAddMap, epollAddOp, epollCtl,
      hm, hk]
  | some entry =>
    rw [hm, Option.map_some] at hk
    have hlisten : fd ∈ e.epListenFds := by simpa [hm] using hl
    cases ok with
    | true =>
      simp [Epoll.AgreeAt, epollAdd, epollAddCtl, epollAddMap, epollAddOp, epollCtl, hm, hk]
    | false =>
      -- the kernel keeps the old mask: the entry must not have changed at all
      have hctl : epollCtl e.interest .mod fd (entry.event ||| event) false = none := by
        simp [epollCtl]
      have hop : epollAddOp e fd event = (.mod, entry.event ||| event) := by
        simp [epollAddOp, hm]
      simp only [epollAdd, epollAddCtl, hop, hctl, epollAddMap, hm, Option.getD_some]
      constructor
      · rintro ⟨-, hkept⟩
        have hmap := congrFun (hkept trivial).1 fd
        rw [Function.update_self, hm, Option.some.injEq] at hmap
        exact Or.inr ⟨entry, rfl, (addEntry_eq_iff entry event _ cb).mp hmap⟩
      · rintro (hf | ⟨entry', he, hsame⟩)
        · cases hf
        · cases he
          have hmap : Function.update e.epEventMap fd (some
              { entry.setCallback event cb with event := entry.event ||| event }) =
                e.epEventMap := by
            rw [(addEntry_eq_iff entry event _ cb).mpr hsame, ← hm, Function.update_eq_self]
          simp only [hmap]
          exact ⟨h fd, fun _ ↦ ⟨trivial, trivial, hop⟩⟩

private theorem agree_delFd_iff (e : Epoll CB) (fd : Int) (ok : Bool) (h : e.Agree) :
    (e.apply (.del fd ok)).Agree ↔ ok = true ∨ e.epEventMap fd = none := by
  rw [agree_apply_iff e _ h]
  obtain ⟨hk, hl⟩ := h fd
  cases hm : e.epEventMap fd with
  | none =>
    rw [hm, Option.map_none] at hk
    cases ok <;> simp [EpollCall.fd, Epoll.apply, Epoll.AgreeAt, epollDelFd, epollDelCtl,
      epollDelMap, epollCtl, hk]
  | some entry =>
    rw [hm, Option.map_some] at hk
    cases ok <;> simp [EpollCall.fd, Epoll.apply, Epoll.AgreeAt, epollDelFd, epollDelCtl,
      epollDelMap, epollCtl, hk]

private theorem agree_delEvent_iff (e : Epoll CB) (fd : Int) (event : Mask) (ok : Bool)
    (h : e.Agree) :
    (e.apply (.delEvent fd event ok)).Agree ↔ NothingToUndo e (.delEvent fd event ok) := by
  rw [agree_apply_iff e _ h]
  obtain ⟨hk, hl⟩ := h fd
  simp only [EpollCall.fd, Epoll.apply, epollDel_eq, NothingToUndo]
  cases hm : e.epEventMap fd with
  | none => simp [h fd]
  | some entry =>
    rw [hm, Option.map_some] at hk
    have hlisten : fd ∈ e.epListenFds := by simpa [hm] using hl
    dsimp only
    split
    · next hz =>
      -- no bit is left: the call goes on as `epoll_del(fd)`
      cases ok <;> simp [Epoll.AgreeAt, epollDelFd, epollDelCtl, epollDelMap, epollCtl, hk]
      intro hev
      exact hev.symm.trans hz
    · next hz =>
      cases ok with
      | true => simp [Epoll.AgreeAt, epollCtl, hk, hlisten]
      | false =>
        simp only [Epoll.AgreeAt, epollCtl, Function.update_self, hlisten, hk]
        constructor
        · rintro ⟨hev, -⟩
          have hev' : entry.event = entry.event &&& ~~~event := by
            simpa [hk] using hev
          exact Or.inr (Or.inr ⟨entry, rfl, hev'.symm, fun h0 ↦ hz (by simp [h0])⟩)
        · rintro (hf | hf | ⟨entry', he, hev, -⟩)
          · cases hf
          · cases hf
          · cases he
            simp [hev, hk]

/-- One call from an agreeing state leaves the three copies in agreement, and a failed
`epoll_add` leaves the bookkeeping alone, exactly when its failure had nothing to undo. -/
theorem agree_apply_iff_nothingToUndo (e : Epoll CB) (c : EpollCall CB) (h : e.Agree) :
    ((e.apply c).Agree ∧ AddKept e c (e.apply c)) ↔ NothingToUndo e c := by
  cases c with
  | add fd event cb ok => exact agree_add_iff e fd event cb ok h
  | delEvent fd event ok =>
    simp only [AddKept, and_true]
    exact agree_delEvent_iff e fd event ok h
  | del fd ok =>
    simp only [AddKept, and_true]
    exact agree_delFd_iff e fd ok h

/-! ### Histories -/

/-- Over every history of calls on a constructed `Epoll`: after each call map, set and kernel
agree and each failed `epoll_add` has left the bookkeeping as it was, exactly when every
failing `epoll_ctl` belonged to a call that had nothing to undo. -/
theorem epoll_bookkeeping_agrees_iff (history : List (EpollCall CB)) :
    Throughout Epoll.apply (fun e c e' ↦ e'.Agree ∧ AddKept e c e') Epoll.init history ↔
      Throughout Epoll.apply (fun e c _ ↦ NothingToUndo e c) Epoll.init history := by
  apply throughout_iff agree_init
  · exact fun e c h ↦ agree_apply_iff_nothingToUndo e c h
  · exact fun e c h hc ↦ ((agree_apply_iff_nothingToUndo e c h).mpr hc).1

/-- A failed first registration of descriptor 5 stays in the map: the kernel does not watch
the descriptor, the map has it, and the retry is a `mod` of an unregistered descriptor. -/
theorem failed_add_breaks_agreement :
    ¬ ∀ history : List (EpollCall Unit),
      Throughout Epoll.apply (fun e c e' ↦ e'.Agree ∧ AddKept e c e') Epoll.init history := by
  intro h
  have hfirst := (h [.add 5 EPOLLIN (some ()) false]).1.1 5
  exact absurd hfirst.1 (by decide)

/-! ### Keys of the map and the kernel's set -/

/-- `epoll_add` adds its key and removes none. -/
theorem isSome_epEventMap_epollAddMap (e : Epoll CB) (fd fd' : Int) (event : Mask)
    (cb : Option CB) : ((epollAddMap e fd event cb).epEventMap fd').isSome =
      (decide (fd' = fd) || (e.epEventMap fd').isSome) := by
  by_cases h : fd' = fd
  · simp [epollAddMap, h]
  · simp [epollAddMap, h]

/-- `epoll_del(fd)` removes its key. -/
theorem isSome_epEventMap_epollDelMap (e : Epoll CB) (fd fd' : Int) :
    ((epollDelMap e fd).epEventMap fd').isSome =
      (decide (fd' ≠ fd) && (e.epEventMap fd').isSome) := by
  by_cases h : fd' = fd
  · simp [epollDelMap, h]
  · simp [epollDelMap, h]

/-- The `epoll_ctl` call of an `epoll_add` leaves the map alone. -/
@[simp] theorem epEventMap_epollAddCtl (e : Epoll CB) (op : CtlOp) (fd : Int) (ev : Mask)
    (ok : Bool) : (epollAddCtl e op fd ev ok).epEventMap = e.epEventMap := by
  unfold epollAddCtl
  split <;> rfl

/-- The `epoll_ctl` call of an `epoll_add` registers no other descriptor. -/
theorem interest_epollAddCtl_of_ne (e : Epoll CB) (op : CtlOp) {fd fd' : Int} (ev : Mask)
    (ok : Bool) (hne : fd' ≠ fd) :
    (epollAddCtl e op fd ev ok).interest fd' = e.interest fd' := by
  unfold epollAddCtl
  split
  · rfl
  · next interest h => exact epollCtl_other h hne

/-- A deletion that the kernel carries out leaves the descriptor unregistered. -/
theorem interest_epollDelCtl (e : Epoll CB) (fd fd' : Int) :
    (epollDelCtl e fd true).interest fd' = if fd' = fd then none else e.interest fd' := by
  simp only [epollDelCtl, epollCtl]
  by_cases hfd : e.interest fd = none
  · by_cases h : fd' = fd
    · simp [h, hfd]
    · simp [h, hfd]
  · by_cases h : fd' = fd
    · simp [h, hfd]
    · simp [h, hfd]

/-- `epoll_del(fd, event)` changes other keys than its own in no way, and its own only when it
goes on with an `EPOLL_CTL_DEL`. -/
theorem isSome_epEventMap_epollDelEventMap {e : Epoll CB} {fd : Int} {event : Mask}
    {op : CtlOp} {ev : Mask} (h : (epollDelEventMap e fd event).2 = some (op, ev)) (fd' : Int) :
    ((epollDelEventMap e fd event).1.epEventMap fd').isSome =
      (decide (¬ (op = .del ∧ fd' = fd)) && (e.epEventMap fd').isSome) := by
  unfold epollDelEventMap at h ⊢
  cases hm : e.epEventMap fd with
  | none =>
    rw [hm] at h
    cases h
  | some ret =>
    rw [hm] at h
    dsimp only at h ⊢
    split at h
    · next hz =>
      cases h
      rw [if_pos hz, isSome_epEventMap_epollDelMap]
      by_cases hf : fd' = fd
      · simp [hf]
      · simp [hf]
    · next hz =>
      cases h
      rw [if_neg hz]
      by_cases hf : fd' = fd
      · simp [hf, hm]
      · simp [hf]

/-- `epoll_del(fd, event)` does not touch the kernel's set before its `epoll_ctl` call. -/
@[simp] theorem interest_epollDelEventMap (e : Epoll CB) (fd : Int) (event : Mask) :
    (epollDelEventMap e fd event).1.interest = e.interest := by
  unfold epollDelEventMap
  split
  · rfl
  · dsimp only
    split <;> rfl

/-- The `epoll_ctl` call of an `epoll_del(fd, event)` leaves the map alone. -/
@[simp] theorem epEventMap_epollDelEventCtl (e : Epoll CB) (op : CtlOp) (fd : Int) (ev : Mask)
    (ok : Bool) : (epollDelEventCtl e op fd ev ok).epEventMap = e.epEventMap := by
  cases op <;> rfl

private theorem isSome_of_epollCtl_mod {interest : Int → Option Mask} {fd fd' : Int} {ev : Mask}
    {ok : Bool} (h : (((epollCtl interest .mod fd ev ok).getD interest) fd').isSome) :
    (interest fd').isSome := by
  simp only [epollCtl] at h
  split at h
  · next hc =>
    by_cases hf : fd' = fd
    · rw [hf]; exact Option.isSome_iff_ne_none.mpr hc.2
    · simpa [hf] using h
  · exact h

/-- The `epoll_ctl` call of an `epoll_del(fd, event)` registers nothing. -/
theorem isSome_interest_of_epollDelEventCtl {e : Epoll CB} {op : CtlOp} {fd fd' : Int}
    {ev : Mask} {ok : Bool} (h : ((epollDelEventCtl e op fd ev ok).interest fd').isSome) :
    (e.interest fd').isSome := by
  cases op with
  | add => exact isSome_of_epollCtl_mod h
  | del =>
    simp only [epollDelEventCtl, epollDelCtl, epollCtl] at h
    split at h
    · by_cases hf : fd' = fd
      · simp [hf] at h
      · simpa [hf] using h
    · exact h
  | mod => exact isSome_of_epollCtl_mod h

end ConcurrentServer.Net
