import ConcurrentServer.Timer.TimerStep

/-!
# The life of a timer

What a run call is to bring about, as a small machine of its own: its node is pending, expires
and is pushed again or is gone for good, or is dropped. The steps of `src/timer/timer.h:60–158`
move each timer along its life.
-/

namespace ConcurrentServer.Timer
open ConcurrentServer.Base

namespace RunCall

/-- The call makes a periodic timer. -/
def isPeriod : RunCall → Bool
  | .runAfter _ isPeriod => isPeriod
  | .runAt _ | .runRepeated _ _ => false

/-- The call makes a repeated timer. -/
def isRepeated : RunCall → Bool
  | .runRepeated _ _ => true
  | .runAt _ | .runAfter _ _ => false

/-- The call makes a timer that expires once. -/
def isOneShot (call : RunCall) : Bool := !call.isPeriod && !call.isRepeated

/-- How often a timer has been posted while its node `n` is pending. -/
def PostedSoFar : RunCall → TimerNode → Nat → Prop
  | .runAfter _ true, _, _ => True
  | .runAfter _ false, _, posts | .runAt _, _, posts => posts = 0
  | .runRepeated _ repeatedNum, n, posts => posts + n.tnRepeatedNum.toNat = repeatedNum.toNat

/-- How often a timer has been posted when it has expired for the last time. -/
def PostedInAll : RunCall → Nat → Prop
  | .runAfter _ true, _ => False
  | .runAfter _ false, posts | .runAt _, posts => posts = 1
  | .runRepeated _ repeatedNum, posts => posts = repeatedNum.toNat + 1

variable {call : RunCall} {n : TimerNode} {posts : Nat}

/-- A timer that expires once comes of one of two calls. -/
theorem eq_of_oneShot (kind : call.isOneShot = true) :
    (∃ msTime, call = .runAfter msTime false) ∨ ∃ timePoint, call = .runAt timePoint := by
  cases call with
  | runAfter msTime isPeriod =>
    cases isPeriod with
    | true => cases kind
    | false => exact Or.inl ⟨msTime, rfl⟩
  | runAt timePoint => exact Or.inr ⟨timePoint, rfl⟩
  | runRepeated msTime repeatedNum => cases kind

/-- A timer that expires once has not been posted while it is pending. -/
theorem postedSoFar_oneShot (kind : call.isOneShot = true) (h : call.PostedSoFar n posts) :
    posts = 0 := by
  rcases eq_of_oneShot kind with ⟨msTime, rfl⟩ | ⟨timePoint, rfl⟩
  · exact h
  · exact h

/-- A timer that expires once is posted once. -/
theorem postedInAll_oneShot (kind : call.isOneShot = true) (h : call.PostedInAll posts) :
    posts = 1 := by
  rcases eq_of_oneShot kind with ⟨msTime, rfl⟩ | ⟨timePoint, rfl⟩
  · exact h
  · exact h

/-- A periodic timer does not expire for the last time. -/
theorem not_postedInAll_period (kind : call.isPeriod = true) (posts : Nat) :
    ¬ call.PostedInAll posts := by
  cases call with
  | runAfter msTime isPeriod =>
    cases isPeriod with
    | true => exact id
    | false => cases kind
  | runAt timePoint => cases kind
  | runRepeated msTime repeatedNum => cases kind

end RunCall

/-- `n` is the node `m` of the call, or what it has become by being pushed again. -/
structure Copy (call : RunCall) (m n : TimerNode) (posts : Nat) : Prop where
  id : n.tnId = m.tnId
  callback : n.tnCallback = m.tnCallback
  period : n.tnIsPeriod = call.isPeriod
  repeated : n.tnIsRepeated = call.isRepeated
  posted : call.PostedSoFar n posts

/-- The state of the timer that `call` made with node `m`: its nodes, and how often it has been
posted and dropped. -/
inductive Life (call : RunCall) (m : TimerNode) : List TimerNode → Nat → Nat → Prop
  | pending (n : TimerNode) (posts : Nat) (copy : Copy call m n posts) : Life call m [n] posts 0
  | spent (posts : Nat) (posted : call.PostedInAll posts) : Life call m [] posts 0
  | dropped (n : TimerNode) (posts : Nat) (copy : Copy call m n posts) : Life call m [] posts 1

variable {call : RunCall} {m n : TimerNode} {l : List TimerNode} {posts drops : Nat}

/-- The life begins. -/
theorem life_node (call : RunCall) (k : Nat) (id now : Int) :
    Life call (call.node k id now) [call.node k id now] 0 0 := by
  apply Life.pending
  cases call with
  | runAfter msTime isPeriod => cases isPeriod <;> exact ⟨rfl, rfl, rfl, rfl, by trivial⟩
  | runAt timePoint => exact ⟨rfl, rfl, rfl, rfl, rfl⟩
  | runRepeated msTime repeatedNum => exact ⟨rfl, rfl, rfl, rfl, Nat.zero_add _⟩

/-- There is at most one node, and then the timer has not been dropped. -/
theorem Life.of_cons {rest : List TimerNode} (h : Life call m (n :: rest) posts drops) :
    rest = [] ∧ drops = 0 ∧ Copy call m n posts := by
  cases h with
  | pending n posts copy => exact ⟨rfl, rfl, copy⟩

/-- The order of the nodes does not matter. -/
theorem Life.perm {l' : List TimerNode} (h : Life call m l posts drops) (hp : l'.Perm l) :
    Life call m l' posts drops := by
  cases h with
  | pending n posts copy =>
    rw [List.perm_singleton.mp hp]
    exact .pending n posts copy
  | spent posts posted =>
    rw [List.perm_nil.mp hp]
    exact .spent posts posted
  | dropped n posts copy =>
    rw [List.perm_nil.mp hp]
    exact .dropped n posts copy

/-- What is pushed again has the callback of the node. -/
theorem tnCallback_rearmed {now : Int} {n' : TimerNode} (h : n.rearmed now = some n') :
    n'.tnCallback = n.tnCallback := by
  unfold TimerNode.rearmed at h
  split at h
  · cases h
    rfl
  · split at h
    · cases h
      rfl
    · cases h

/-- A node that is pushed again keeps its id. -/
theorem tnId_rearmed {now : Int} {n' : TimerNode} (h : n.rearmed now = some n') :
    n'.tnId = n.tnId := by
  unfold TimerNode.rearmed at h
  split at h
  · cases h
    rfl
  · split at h
    · cases h
      rfl
    · cases h

/-- An expiry posts once, and pushes the node again or is the last one. -/
theorem Life.expire (h : Copy call m n posts) (now : Int) :
    Life call m (n.rearmed now).toList (posts + 1) 0 := by
  have hposted := h.posted
  unfold TimerNode.rearmed
  rw [h.period, h.repeated]
  cases call with
  | runAfter msTime isPeriod =>
    cases isPeriod with
    | true => exact .pending _ _ ⟨h.id, h.callback, rfl, rfl, trivial⟩
    | false =>
      apply Life.spent
      show posts + 1 = 1
      rw [show posts = 0 from hposted]
  | runAt timePoint =>
    apply Life.spent
    show posts + 1 = 1
    rw [show posts = 0 from hposted]
  | runRepeated msTime repeatedNum =>
    have hcount : posts + n.tnRepeatedNum.toNat = repeatedNum.toNat := hposted
    by_cases hpos : n.tnRepeatedNum > 0
    · simp only [RunCall.isPeriod, RunCall.isRepeated, Bool.false_eq_true, if_false, Bool.true_and,
        decide_eq_true_eq, if_pos hpos]
      refine .pending _ _ ⟨h.id, h.callback, rfl, rfl, ?_⟩
      show posts + 1 + (n.tnRepeatedNum - 1).toNat = repeatedNum.toNat
      omega
    · simp only [RunCall.isPeriod, RunCall.isRepeated, Bool.false_eq_true, if_false, Bool.true_and,
        decide_eq_true_eq, if_neg hpos]
      apply Life.spent
      show posts + 1 = repeatedNum.toNat + 1
      omega

end ConcurrentServer.Timer
