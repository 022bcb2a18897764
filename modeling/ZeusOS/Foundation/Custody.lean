import Mathlib.Algebra.Order.BigOperators.Group.Finset
import Mathlib.Algebra.BigOperators.Group.Finset.Piecewise
import ZeusOS.Foundation.Runs

/-!
# Custody

Things that are received, used for a while, and given back, by several threads
at once.

Each thread keeps at most one thing at a time and handles it in three phases:
it receives it, it is finished with it, it returns it. `step` is that
discipline as a machine over the events of a thread; an event out of turn has
no successor, so a thread keeps the discipline exactly when its log is a run of
the machine.

A log of the whole process is the threads' logs interleaved in any way, and it
may stop anywhere. Counting is what survives interleaving: each thread's counts
are tied together by where it stands, and the process's counts are their sums.

## Main definitions

* `Phase`, `Hold`, `step`: The discipline of one thread.
* `count`: How often a thing went through a phase.
* `threadLog`: One thread's part of an interleaved log.

## Theorems

* `run_counts`: A thread's counts differ by what it holds.
* `count_interleaved`: The counts of an interleaved log are sums.
* `counts_le`: Nothing is returned that was not finished with and received.
* `counts_eq`: When all threads are through, all was returned.
-/

namespace Foundation

namespace Custody

open Runs

/-- What happens to a thing in custody. -/
inductive Phase where
  | received
  | finished
  | returned
  deriving DecidableEq

/-- Where a thread stands. -/
inductive Hold (κ : Type) where
  | idle
  | inUse (k : κ)
  | done (k : κ)
  deriving DecidableEq

variable {κ ε τ : Type} [DecidableEq κ]

/-- One event, in the only order allowed. -/
def Hold.next : Hold κ → Phase × κ → Option (Hold κ)
  | .idle, (.received, k) => some (.inUse k)
  | .inUse k, (.finished, k') => if k' = k then some (.done k) else none
  | .done k, (.returned, k') => if k' = k then some .idle else none
  | _, _ => none

/-- Events that are about nothing in custody may come at any time. -/
def step (phase : ε → Option (Phase × κ)) (h : Hold κ) (e : ε) : Option (Hold κ) :=
  match phase e with
  | none => some h
  | some p => h.next p

/-- How often a thing went through a phase. -/
def count (phase : ε → Option (Phase × κ)) (p : Phase) (k : κ) (log : List ε) : Nat :=
  log.countP fun e => phase e = some (p, k)

variable {phase : ε → Option (Phase × κ)}

theorem count_cons (p : Phase) (k : κ) (e : ε) (log : List ε) :
    count phase p k (e :: log)
      = count phase p k log + if phase e = some (p, k) then 1 else 0 := by
  unfold count
  rw [List.countP_cons]
  simp only [decide_eq_true_eq]

theorem count_append (p : Phase) (k : κ) (log log' : List ε) :
    count phase p k (log ++ log') = count phase p k log + count phase p k log' :=
  List.countP_append

/-- What one step adds to the counts it takes from what is held. -/
theorem step_counts {h h' : Hold κ} {e : ε} (hstep : step phase h e = some h') (k : κ) :
    (if phase e = some (.received, k) then 1 else 0) + (if h = .inUse k then 1 else 0)
        = (if phase e = some (.finished, k) then 1 else 0) + (if h' = .inUse k then 1 else 0) ∧
      (if phase e = some (.finished, k) then 1 else 0) + (if h = .done k then 1 else 0)
        = (if phase e = some (.returned, k) then 1 else 0) + (if h' = .done k then 1 else 0) := by
  unfold step at hstep
  -- An event about nothing in custody changes neither the counts nor what is held.
  cases hphase : phase e with
  | none =>
      rw [hphase] at hstep
      simp only [Option.some.injEq] at hstep
      subst hstep
      simp only [reduceCtorEq, if_false, and_self]
  | some p =>
      rw [hphase] at hstep
      rcases p with ⟨p, k'⟩
      simp only at hstep
      -- Only the three turns of the discipline have a successor.
      cases h with
      | idle =>
          cases p with
          | received =>
              simp only [Hold.next, Option.some.injEq] at hstep
              subst hstep
              simp
          | finished => cases hstep
          | returned => cases hstep
      | inUse k₀ =>
          cases p with
          | received => cases hstep
          | finished =>
              simp only [Hold.next, Option.ite_none_right_eq_some, Option.some.injEq] at hstep
              rcases hstep with ⟨rfl, rfl⟩
              simp
          | returned => cases hstep
      | done k₀ =>
          cases p with
          | received => cases hstep
          | finished => cases hstep
          | returned =>
              simp only [Hold.next, Option.ite_none_right_eq_some, Option.some.injEq] at hstep
              rcases hstep with ⟨rfl, rfl⟩
              simp

/-- A thread's counts differ by what it holds. -/
theorem run_counts (log : List ε) {h h' : Hold κ} (hrun : run (step phase) h log = some h')
    (k : κ) :
    count phase .received k log + (if h = .inUse k then 1 else 0)
        = count phase .finished k log + (if h' = .inUse k then 1 else 0) ∧
      count phase .finished k log + (if h = .done k then 1 else 0)
        = count phase .returned k log + (if h' = .done k then 1 else 0) := by
  induction log generalizing h with
  | nil =>
      simp only [run_nil, Option.some.injEq] at hrun
      subst hrun
      exact ⟨rfl, rfl⟩
  | cons e log ih =>
      simp only [run_cons, Option.bind_eq_some_iff] at hrun
      rcases hrun with ⟨h₁, hstep, hrest⟩
      have hfirst := step_counts hstep k
      have hlater := ih hrest
      -- The two balances add up, and what is held in between cancels.
      simp only [count_cons]
      omega

/-- What a thread that keeps the discipline has done at any point of its
    log. -/
theorem prefix_counts {log part : List ε} {h : Hold κ}
    (hrun : run (step phase) .idle log = some h) (hpart : part <+: log) (k : κ) :
    count phase .returned k part ≤ count phase .finished k part ∧
      count phase .finished k part ≤ count phase .received k part := by
  rcases hpart with ⟨rest, rfl⟩
  -- Any part of a disciplined log is the log of a disciplined thread that stops there.
  rw [run_append, Option.bind_eq_some_iff] at hrun
  rcases hrun with ⟨h₁, hpart, _⟩
  have := run_counts part hpart k
  simp only [reduceCtorEq, if_false, Nat.add_zero] at this
  omega

/-- A thread that holds nothing in the end has returned what it received. -/
theorem idle_counts {log : List ε} (hrun : run (step phase) .idle log = some .idle) (k : κ) :
    count phase .received k log = count phase .returned k log := by
  have := run_counts log hrun k
  simp only [reduceCtorEq, if_false, Nat.add_zero] at this
  omega

variable [DecidableEq τ]

/-- One thread's part of an interleaved log. -/
def threadLog (t : τ) (log : List (τ × ε)) : List ε :=
  log.filterMap fun e => if e.1 = t then some e.2 else none

/-- How often a thing went through a phase, whoever had it. -/
def countAll (phase : ε → Option (Phase × κ)) (p : Phase) (k : κ) (log : List (τ × ε)) : Nat :=
  count phase p k (log.map Prod.snd)

/-- The counts of an interleaved log are the sums of the threads' counts. -/
theorem count_interleaved (p : Phase) (k : κ) (log : List (τ × ε)) (threads : Finset τ)
    (hthreads : ∀ e ∈ log, e.1 ∈ threads) :
    countAll phase p k log = ∑ t ∈ threads, count phase p k (threadLog t log) := by
  unfold countAll
  -- The induction is on the log: each event is one thread's, and is counted there.
  induction log with
  | nil =>
      simp only [List.map_nil, threadLog, List.filterMap_nil]
      exact (Finset.sum_eq_zero fun _ _ => rfl).symm
  | cons e log ih =>
      have hsplit : ∀ t, count phase p k (threadLog t (e :: log))
          = count phase p k (threadLog t log)
            + if e.1 = t then (if phase e.2 = some (p, k) then 1 else 0) else 0 := by
        -- The event counts for the one thread that has it.
        intro t
        unfold threadLog
        by_cases ht : e.1 = t
        · rw [List.filterMap_cons_some (by rw [if_pos ht]), count_cons, if_pos ht]
        · rw [List.filterMap_cons_none (by rw [if_neg ht]), if_neg ht, Nat.add_zero]
      rw [List.map_cons, count_cons, ih fun e' he' => hthreads e' (List.mem_cons_of_mem _ he'),
        Finset.sum_congr rfl fun t _ => hsplit t, Finset.sum_add_distrib, Finset.sum_ite_eq,
        if_pos (hthreads e List.mem_cons_self)]

/-- The threads that matter are those that have an event in the log. -/
theorem countAll_eq_sum (p : Phase) (k : κ) (log : List (τ × ε)) :
    countAll phase p k log
      = ∑ t ∈ (log.map Prod.fst).toFinset, count phase p k (threadLog t log) := by
  refine count_interleaved p k log _ fun e he => ?_
  rw [List.mem_toFinset]
  exact List.mem_map_of_mem he

/-- Whatever the interleaving and wherever it stops, nothing is returned more
    often than it was finished with, nor finished with more often than it was
    received. -/
theorem counts_le {logs : τ → List ε} (hlogs : ∀ t, ∃ h, run (step phase) .idle (logs t) = some h)
    {log : List (τ × ε)} (hlog : ∀ t, threadLog t log <+: logs t) (k : κ) :
    countAll phase .returned k log ≤ countAll phase .finished k log ∧
      countAll phase .finished k log ≤ countAll phase .received k log := by
  -- Thread by thread first, then the inequalities are summed.
  have hpart : ∀ t,
      count phase .returned k (threadLog t log) ≤ count phase .finished k (threadLog t log) ∧
      count phase .finished k (threadLog t log) ≤ count phase .received k (threadLog t log) := by
    intro t
    rcases hlogs t with ⟨h, hrun⟩
    exact prefix_counts hrun (hlog t) k
  simp only [countAll_eq_sum]
  exact ⟨Finset.sum_le_sum fun t _ => (hpart t).1, Finset.sum_le_sum fun t _ => (hpart t).2⟩

/-- When every thread has come to the end of its log with nothing in its hands,
    everything received was returned. -/
theorem counts_eq {log : List (τ × ε)}
    (hlogs : ∀ t, run (step phase) .idle (threadLog t log) = some .idle) (k : κ) :
    countAll phase .received k log = countAll phase .returned k log := by
  simp only [countAll_eq_sum]
  exact Finset.sum_congr rfl fun t _ => idle_counts (hlogs t) k

end Custody

end Foundation
