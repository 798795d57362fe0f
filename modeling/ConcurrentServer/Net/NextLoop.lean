import ConcurrentServer.Net.ConnTimers
import Mathlib.Data.Int.CardIntervalMod

/-!
# Connections dealt out in turn

`src/net/tcp_server.cpp:60–67`, `src/net/acceptor.cpp:91–98`. `get_next_loop` goes round the loops,
and only `do_accept` calls it, once for each connection.
-/

namespace ConcurrentServer.Net
open ConcurrentServer.Base

namespace Server

variable {s t : Server} {a : ServerAction}

/-- The number of connections that loop `l` was given. -/
def onLoop (s : Server) (l : Nat) : Nat := Nat.count (fun c ↦ (s.conns c).tcLoop = l) s.connCount

/-- The connections so far have gone round the `n` loops. -/
structure Dealt (n : Nat) (s : Server) : Prop where
  threads : s.tsThreadNum = n
  next : s.getNextLoop = (s.connCount % n : Nat)
  given : ∀ c < s.connCount, (s.conns c).tcLoop = c % n

/-- Before the first step. -/
theorem dealt_init (n : Nat) (elEvfd : Nat → Int) : (init n elEvfd).Dealt n where
  threads := rfl
  next := by
    change (-1 + 1 : Int) % n = ((0 % n : Nat) : Int)
    rw [Nat.zero_mod]
    exact Int.zero_emod _
  given _ h := absurd h (Nat.not_lt_zero _)

@[simp] theorem tsNextLoop_addStmt (s : Server) (c : Nat) (p : AddPc) :
    (s.addStmt c p).tsNextLoop = s.tsNextLoop := by
  cases p <;> rfl

@[simp] theorem tsNextLoop_closeStmt (s : Server) (c : Nat) (p : ClosePc) :
    (s.closeStmt c p).tsNextLoop = s.tsNextLoop := by
  cases p <;> rfl

/-- A step accepts a connection, or leaves their number and the turn. -/
theorem Step.turn (hstep : Step s a t) :
    (t.connCount = s.connCount ∧ t.tsNextLoop = s.tsNextLoop) ∨ ∃ fd, t = s.acceptConn fd := by
  cases hstep with
  | accept fd idle fresh started => exact Or.inr ⟨fd, rfl⟩
  | acceptAdd ok c p at_ => exact Or.inl ⟨addStmt_connCount s c p, tsNextLoop_addStmt s c p⟩
  | messageAdd l c p batch at_ => exact Or.inl ⟨addStmt_connCount s c p, tsNextLoop_addStmt s c p⟩
  | close l c p batch at_ body =>
    exact Or.inl ⟨closeStmt_connCount s c p, tsNextLoop_closeStmt s c p⟩
  | userCloseStmt l c d p batch at_ body =>
    exact Or.inl ⟨closeStmt_connCount s d p, tsNextLoop_closeStmt s d p⟩
  | timerClose k tn p node at_ body =>
    exact Or.inl ⟨closeStmt_connCount s tn.job p, tsNextLoop_closeStmt s tn.job p⟩
  | _ => exact Or.inl ⟨rfl, rfl⟩

/-- The next connection goes to the loop after the last one's. -/
theorem Dealt.acceptConn {n : Nat} (h : s.Dealt n) (fd : Int) : (s.acceptConn fd).Dealt n where
  threads := h.threads
  next := by
    change (s.getNextLoop + 1) % (s.tsThreadNum : Int) = ((s.connCount + 1) % n : Nat)
    rw [h.next, h.threads]
    push_cast
    exact Int.emod_add_emod _ _ _
  given c hc := by
    rw [acceptConn_conns]
    rw [acceptConn_connCount] at hc
    by_cases hlast : c = s.connCount
    · rw [hlast, Function.update_self]
      change s.getNextLoop.toNat = _
      rw [h.next, Int.toNat_natCast]
    · rw [Function.update_of_ne hlast]
      exact h.given c (by omega)

/-- Every step. -/
theorem Dealt.step {n : Nat} (h : s.Dealt n) (hstep : Step s a t) : t.Dealt n := by
  rcases hstep.turn with ⟨hcount, hnext⟩ | ⟨fd, rfl⟩
  · have hthreads := hstep.tsThreadNum
    refine ⟨hthreads.trans h.threads, ?_, ?_⟩
    · unfold getNextLoop
      rw [hnext, hthreads, hcount]
      exact h.next
    · intro c hc
      rw [hcount] at hc
      rw [hstep.tcLoop hc, h.given c hc]
  · exact h.acceptConn fd

/-- The loops share the connections. -/
theorem Dealt.onLoop {n : Nat} (h : s.Dealt n) {l : Nat} (hl : l < n) :
    s.onLoop l = s.connCount / n + if l < s.connCount % n then 1 else 0 := by
  have hcongr : s.onLoop l = Nat.count (· ≡ l [MOD n]) s.connCount := by
    unfold Server.onLoop Nat.count
    apply List.countP_congr
    intro c hc
    rw [List.mem_range] at hc
    rw [decide_eq_true_iff, decide_eq_true_iff]
    change (s.conns c).tcLoop = l ↔ c % n = l % n
    rw [h.given c hc, Nat.mod_eq_of_lt hl]
  rw [hcongr, Nat.count_modEq_card _ (by omega), Nat.mod_eq_of_lt hl]

end Server

/-- In every run, the connections are given to the loops in turn: the `c`-th accepted one, from
0 on, belongs to loop `c % n`, so that no loop is ever given two connections more than another. -/
theorem connections_dealt_in_turn {n : Nat} {elEvfd : Nat → Int} {s : Server}
    (h : Reach Server.step (Server.init n elEvfd) s) :
    (∀ c < s.connCount, (s.conns c).tcLoop = c % n) ∧
      ∀ l < n, ∀ l' < n, s.onLoop l ≤ s.onLoop l' + 1 := by
  have hdealt : s.Dealt n := by
    apply h.invariant (Server.dealt_init n elEvfd)
    intro s a t hs _ hstep
    exact hs.step (Server.step_inversion hstep)
  refine ⟨hdealt.given, ?_⟩
  intro l hl l' hl'
  rw [hdealt.onLoop hl, hdealt.onLoop hl']
  split <;> split <;> omega

/-- Three connections on two loops. -/
theorem three_connections_dealt :
    ∃ s, run Server.step (Server.init 2 fun l ↦ 3 + l)
        (.accept 7 :: List.replicate 5 (.acceptor true) ++ .accept 8 ::
          List.replicate 5 (.acceptor true) ++ [.accept 9]) = some s ∧
      s.connCount = 3 ∧ (∀ c < s.connCount, (s.conns c).tcLoop = c % 2) ∧
        ∀ l < 2, ∀ l' < 2, s.onLoop l ≤ s.onLoop l' + 1 := by
  have hrun : (run Server.step (Server.init 2 fun l ↦ 3 + l)
      (.accept 7 :: List.replicate 5 (.acceptor true) ++ .accept 8 ::
        List.replicate 5 (.acceptor true) ++ [.accept 9])).isSome := by
    decide +kernel
  have hcount : ∀ t ∈ run Server.step (Server.init 2 fun l ↦ 3 + l)
      (.accept 7 :: List.replicate 5 (.acceptor true) ++ .accept 8 ::
        List.replicate 5 (.acceptor true) ++ [.accept 9]), t.connCount = 3 := by
    decide +kernel
  obtain ⟨s, hs⟩ := Option.isSome_iff_exists.mp hrun
  exact ⟨s, hs, hcount s hs, connections_dealt_in_turn (reach_of_run hs)⟩

end ConcurrentServer.Net
