import ZeusOS.ThreadPool.Queue

/-!
# The Limit of the Queue

`add_task` compares the length of the queue with the limit before it pushes,
and it compares with `>`. A queue that holds exactly as many tasks as the limit
allows is not yet full to it, so the next call is let in, and it is the one
after that which is refused. So the queue grows to one task more than it was
given, and a caller that is refused has been refused at that length.

The limit is kept, then, by those runs in which nobody calls `add_task` when
the queue holds as many tasks as the limit: not one call more is forgiven. What
holds whatever the callers do is the limit and one.

The largest `int` is no limit at all, since no length converts to more than
that.

## Main definitions

* `WithinLimit`: The queue holds no more than the limit allows.
* `RefusesAtLimit`: A call that is refused finds the queue at its limit.
* `FindsRoom`: A call does not find the queue at its limit.

## Theorems

* `full_iff`: When `add_task` finds the queue full.
* `step_tasks`: What a step does to the length of the queue.
* `limit_kept_iff`: The limit, in every run.
* `limit_exceeded_by_one`: The bound that is kept in every run.
-/

namespace ZeusOS

namespace ThreadPool

open Foundation.Runs Foundation.Words

variable {n : Nat} {τ : Type}

/-- The queue holds no more than the limit allows. -/
def WithinLimit (limit : Int) (s : System n τ) : Prop := (s.pool.mTasks.length : Int) ≤ limit

/-- A call of `add_task` that is refused finds the queue at its limit. -/
def RefusesAtLimit (limit : Int) (s : System n τ) : Action n τ → Prop
  | .addTask task woken =>
    (addTask task woken s.pool).1 = -1 → (s.pool.mTasks.length : Int) = limit
  | _ => True

/-- A call of `add_task`, with a worker that its signal can wake, does not find
    the queue at its limit. -/
def FindsRoom (limit : Int) (s : System n τ) : Action n τ → Prop
  | .addTask _ woken => CanWake s.pool woken → (s.pool.mTasks.length : Int) ≠ limit
  | _ => True

instance decidableFindsRoom (limit : Int) (s : System n τ) :
    (a : Action n τ) → Decidable (FindsRoom limit s a)
  | .addTask _ woken => inferInstanceAs (Decidable (CanWake s.pool woken → _))
  | .executeThread _ | .finish _ | .spurious _ | .destroyThreadpool => .isTrue trivial

/-- A queue of which the length is an `int` is found full when it is longer than
    the limit. -/
theorem full_iff {p : Pool n τ} (hpos : 0 < p.mTaskSizeLimit) (hlen : p.mTasks.length < 2 ^ 31) :
    p.full ↔ p.mTaskSizeLimit < p.mTasks.length := by
  have hnat : (UInt32.ofNat p.mTasks.length).toNat = p.mTasks.length :=
    UInt32.toNat_ofNat_of_lt' (by simp only [UInt32.size]; omega)
  have hint : toInt (UInt32.ofNat p.mTasks.length) = p.mTasks.length := by
    rw [toInt_of_lt _ (by omega), hnat]
  unfold Pool.full
  rw [hint]
  constructor
  · exact fun h => h.2
  · exact fun h => ⟨hpos, h⟩

/-- A call that has an answer of minus one found the queue full. -/
theorem full_of_refused {p : Pool n τ} {task : τ} {woken : Option (Fin n)}
    (h : (addTask task woken p).1 = -1) : p.full := by
  rcases addTask_cases task woken p with ⟨hfull, _⟩ | ⟨_, hadd⟩
  · exact hfull
  · -- A call that is let in answers zero.
    have hzero : (0 : Int32) ≠ -1 := by decide
    simp only [hadd] at h
    exact absurd h hzero

/-- What a step can have done to the queue: only a call of `add_task` that finds
    room makes it longer, and by one task. -/
inductive Queued (s : System n τ) : Action n τ → System n τ → Prop
  | grows (task : τ) (woken : Option (Fin n)) (s' : System n τ) (hroom : ¬ s.pool.full)
      (hcan : CanWake s.pool woken) (hlen : s'.pool.mTasks.length = s.pool.mTasks.length + 1) :
      Queued s (.addTask task woken) s'
  | shrinks (a : Action n τ) (s' : System n τ)
      (hlen : s'.pool.mTasks.length ≤ s.pool.mTasks.length) : Queued s a s'

theorem step_tasks {s s' : System n τ} {a : Action n τ} (h : step s a = some s') :
    Queued s a s' ∧ s'.pool.mTaskSizeLimit = s.pool.mTaskSizeLimit := by
  cases step_cases h with
  | refuses task woken _ => exact ⟨.shrinks _ _ (Nat.le_refl _), rfl⟩
  | accepts task woken hroom hcan =>
      refine ⟨.grows task woken _ hroom hcan ?_, signal_mTaskSizeLimit _ _⟩
      simp only [signal_mTasks, List.length_append, List.length_singleton]
  | executes w task pool _ hexecuted =>
      cases hexecuted with
      | blocks _ _ | exits _ => exact ⟨.shrinks _ _ (Nat.le_refl _), rfl⟩
      | takes task rest _ htasks =>
          -- The first task goes to the worker.
          refine ⟨.shrinks _ _ ?_, rfl⟩
          simp only [setWorker_mTasks, htasks, List.length_cons]
          omega
  | finishes w _ _ | wakes w _ => exact ⟨.shrinks _ _ (Nat.le_refl _), rfl⟩
  | destroys destroyer pool hdestroyed =>
      cases hdestroyed with
      | stops _ | broadcasts _ _ _ | goesOn _ _ _ => exact ⟨.shrinks _ _ (Nat.le_refl _), rfl⟩

/-- The limit is the one that was set, and the queue keeps it. -/
structure Limited (limit : Int) (s : System n τ) : Prop where
  mTaskSizeLimit : s.pool.mTaskSizeLimit = limit
  within : WithinLimit limit s

theorem limited_start {limit : Int} (hpos : 0 < limit) : Limited limit (System.start n τ limit) := by
  refine ⟨rfl, ?_⟩
  simp only [WithinLimit, System.start, List.length_nil]
  omega

/-- A call that finds the queue at its limit is let in. -/
theorem not_full_of_limited {limit : Int} {s : System n τ} (hpos : 0 < limit)
    (hint : limit < 2 ^ 31) (hs : Limited limit s) : ¬ s.pool.full := by
  have hwithin := hs.within
  unfold WithinLimit at hwithin
  rw [full_iff (by rw [hs.mTaskSizeLimit]; exact hpos) (by omega), hs.mTaskSizeLimit]
  omega

/-- A step on which no call comes to a queue at its limit keeps the limit. -/
theorem step_limited {limit : Int} (s : System n τ) (a : Action n τ) (s' : System n τ)
    (hs : Limited limit s) (hroom : FindsRoom limit s a) (h : step s a = some s') :
    Limited limit s' := by
  rcases step_tasks h with ⟨hqueued, hlimit⟩
  refine ⟨hlimit.trans hs.mTaskSizeLimit, ?_⟩
  have hwithin := hs.within
  unfold WithinLimit at hwithin ⊢
  cases hqueued with
  | grows task woken _ _ hcan hlen =>
      -- The call found less than the limit, so one task more is within it.
      have hne := hroom hcan
      omega
  | shrinks _ _ hlen => omega

/-- A call that comes to a queue at its limit makes it longer. -/
theorem step_exceeds {limit : Int} (hpos : 0 < limit) (hint : limit < 2 ^ 31) (s : System n τ)
    (a : Action n τ) (hs : Limited limit s) (hroom : ¬ FindsRoom limit s a) :
    ∃ s', step s a = some s' ∧ ¬ WithinLimit limit s' := by
  have hfull := not_full_of_limited hpos hint hs
  cases a with
  | addTask task woken =>
      -- The queue is at its limit and not yet found full.
      simp only [FindsRoom, Classical.not_imp, not_not] at hroom
      refine ⟨_, if_pos (Or.inr hroom.1), ?_⟩
      rcases addTask_cases task woken s.pool with ⟨hfull', _⟩ | ⟨_, hadd⟩
      · exact absurd hfull' hfull
      · simp only [WithinLimit, hadd, signal_mTasks, List.length_append, List.length_singleton]
        omega
  | executeThread w | finish w | spurious w | destroyThreadpool => exact absurd trivial hroom

/-- A queue that keeps its limit is never found full, so nobody is refused. -/
theorem refusesAtLimit_of_limited {limit : Int} (hpos : 0 < limit) (hint : limit < 2 ^ 31)
    (s : System n τ) (a : Action n τ) (hs : Limited limit s) : RefusesAtLimit limit s a := by
  cases a with
  | addTask task woken =>
      intro hrefused
      exact absurd (full_of_refused hrefused) (not_full_of_limited hpos hint hs)
  | executeThread w | finish w | spurious w | destroyThreadpool => exact trivial

/-- In every run, the queue never holds more than the limit allows and a call is
    refused only at the limit, if and only if no call comes to a queue at its
    limit. -/
theorem limit_kept_iff {limit : Int} (hpos : 0 < limit) (hint : limit < 2 ^ 31)
    (actions : List (Action n τ)) :
    (Always step (WithinLimit limit) (System.start n τ limit) actions ∧
        Along step (RefusesAtLimit limit) (System.start n τ limit) actions)
      ↔ Along step (FindsRoom limit) (System.start n τ limit) actions := by
  have hiff := always_iff_along_of step (Limited limit) (WithinLimit limit) (FindsRoom limit)
    (fun _ hs => hs.within) step_limited (step_exceeds hpos hint) (System.start n τ limit) actions
    (limited_start hpos)
  constructor
  · exact fun h => hiff.mp h.1
  · intro hroom
    refine ⟨hiff.mpr hroom, ?_⟩
    have hlimited := always_of_along step (Limited limit) (FindsRoom limit) step_limited _ actions
      (limited_start hpos) hroom
    exact along_of_always (refusesAtLimit_of_limited hpos hint) hlimited

/-- A producer and a worker that take turns keep a limit of one. -/
theorem limit_kept_sample :
    (Always step (WithinLimit 1) (System.start 1 Nat 1)
        [.addTask 7 none, .executeThread 0, .addTask 8 none] ∧
      Along step (RefusesAtLimit 1) (System.start 1 Nat 1)
        [.addTask 7 none, .executeThread 0, .addTask 8 none]) ∧
    (run step (System.start 1 Nat 1) [.addTask 7 none, .executeThread 0, .addTask 8 none]).isSome :=
  ⟨(limit_kept_iff (by decide) (by decide) _).mpr (by decide +kernel), by decide +kernel⟩

/-- With a limit of one, a second task is let in before the first is taken. -/
theorem limit_exceeded :
    ¬ Always step (WithinLimit 1) (System.start 1 Nat 1) [.addTask 7 none, .addTask 8 none] := by
  intro h
  have hlen : (run step (System.start 1 Nat 1) [.addTask 7 none, .addTask 8 none]).map
      (fun s => s.pool.mTasks.length) = some 2 := by decide +kernel
  rcases Option.map_eq_some_iff.mp hlen with ⟨s, hrun, hlen⟩
  have hwithin := h _ [] s (List.append_nil _).symm hrun
  simp only [WithinLimit, hlen] at hwithin
  omega

/-- In every run the queue holds no more than the limit and one, and a call is
    refused exactly there. -/
theorem limit_exceeded_by_one {limit : Int} (hpos : 0 < limit) (hint : limit < 2 ^ 31 - 1)
    (actions : List (Action n τ)) (s : System n τ)
    (hrun : run step (System.start n τ limit) actions = some s) :
    (s.pool.mTasks.length : Int) ≤ limit + 1 ∧
      ∀ task woken, (addTask task woken s.pool).1 = -1 ↔ (s.pool.mTasks.length : Int) = limit + 1 := by
  have hstep : ∀ (u : System n τ) a u',
      u.pool.mTaskSizeLimit = limit ∧ (u.pool.mTasks.length : Int) ≤ limit + 1 →
      step u a = some u' →
      u'.pool.mTaskSizeLimit = limit ∧ (u'.pool.mTasks.length : Int) ≤ limit + 1 := by
    rintro u a u' ⟨hlimit, hlen⟩ h
    rcases step_tasks h with ⟨hqueued, hsame⟩
    refine ⟨hsame.trans hlimit, ?_⟩
    cases hqueued with
    | grows task woken _ hroom _ hgrown =>
        -- What is not full holds the limit at most.
        rw [full_iff (by rw [hlimit]; exact hpos) (by omega), hlimit] at hroom
        omega
    | shrinks _ _ hshrunk => omega
  rcases run_invariant step _ hstep _ s actions
      ⟨rfl, by simp only [System.start, List.length_nil]; omega⟩ hrun with ⟨hlimit, hlen⟩
  refine ⟨hlen, fun task woken => ?_⟩
  have hfull := full_iff (p := s.pool) (by rw [hlimit]; exact hpos) (by omega)
  rw [hlimit] at hfull
  constructor
  · intro hrefused
    have hlong := hfull.mp (full_of_refused hrefused)
    omega
  · intro heq
    unfold addTask
    rw [if_pos (hfull.mpr (by omega))]

end ThreadPool

end ZeusOS
