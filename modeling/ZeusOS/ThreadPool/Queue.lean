import ZeusOS.Foundation.Fifo
import ZeusOS.Foundation.Runs
import ZeusOS.ThreadPool.Pool

/-!
# Tasks and Workers

What holds of the pool whatever its producers and workers do, in whatever order
they get the lock.

The queue is a queue: the tasks accepted are the tasks taken, in order, and
those still in it. Only the section that adds and the section that takes touch
it, and both hold the lock.

Nobody sleeps while there is work. A worker blocks only when the queue is
empty, so when a task is added the workers that are blocked are as they were,
and if that is all of them the signal wakes one. It is the worker that is awake
that matters, not which task it was woken for. The shutdown sets the state
under the lock, so from then on nobody blocks any more, and the broadcast,
though it comes after the unlock, finds everyone who had blocked before.

## Main definitions

* `accepted`: The tasks of the calls that returned zero.
* `Executed`, `Stepped`: What a worker's section, and any step, can have done.
* `Awake`: Somebody is there to take a task.
* `Destroyer.broadcasted`: The shutdown has made its first broadcast.

## Theorems

* `executeThread_cases`, `addTask_cases`, `destroyThreadpool_cases`: The
  sections.
* `step_cases`: The outcomes of a step.
* `step_conserved`, `step_stopped`, `step_awake`, `step_roused`: What a step
  keeps.
* `tasks_in_order`: The queue, in every run.
* `no_lost_wakeup`: The workers, in every run.
-/

namespace ZeusOS

namespace ThreadPool

open Foundation.Fifo Foundation.Runs

variable {n : Nat} {τ : Type}

/-- The tasks of the calls that returned zero. -/
def accepted (calls : List (τ × Int32)) : List τ :=
  (calls.filter fun call => call.2 = 0).map Prod.fst

/-- What a worker's section can have done: block, leave, or take a task. -/
inductive Executed (w : Fin n) (p : Pool n τ) : Option τ → Pool n τ → Prop
  | blocks (hrunning : p.mPoolState ≠ .stopped) (hempty : p.mTasks = []) :
      Executed w p none (p.setWorker w .blocked)
  | exits (hstopped : p.mPoolState = .stopped) : Executed w p none (p.setWorker w .exited)
  | takes (task : τ) (rest : List τ) (hrunning : p.mPoolState ≠ .stopped)
      (htasks : p.mTasks = task :: rest) :
      Executed w p (some task) (({ p with mTasks := rest }).setWorker w (.running task))

theorem executeThread_cases {w : Fin n} {p p' : Pool n τ} {task : Option τ}
    (h : executeThread w p = some (task, p')) :
    p.workers w = .ready ∧ Executed w p task p' := by
  unfold executeThread at h
  rcases hworker : p.workers w with _ | _ | running | _
  · refine ⟨rfl, ?_⟩
    simp only [hworker] at h
    by_cases hwait : p.mPoolState ≠ .stopped ∧ p.mTasks.isEmpty = true
    · rw [if_pos hwait, Option.some.injEq, Prod.mk.injEq] at h
      rcases h with ⟨rfl, rfl⟩
      exact .blocks hwait.1 (List.isEmpty_iff.mp hwait.2)
    rw [if_neg hwait] at h
    by_cases hstopped : p.mPoolState = .stopped
    · rw [if_pos hstopped, Option.some.injEq, Prod.mk.injEq] at h
      rcases h with ⟨rfl, rfl⟩
      exact .exits hstopped
    · rw [if_neg hstopped] at h
      rcases htasks : p.mTasks with _ | ⟨t, rest⟩
      · -- The loop would have waited for an empty queue.
        simp only [htasks, reduceCtorEq] at h
      · simp only [htasks, Option.some.injEq, Prod.mk.injEq] at h
        rcases h with ⟨rfl, rfl⟩
        exact .takes t rest hstopped htasks
  -- A worker anywhere else is not about to take the lock.
  · simp only [hworker, reduceCtorEq] at h
  · simp only [hworker, reduceCtorEq] at h
  · simp only [hworker, reduceCtorEq] at h

/-- A call of `add_task` either finds the queue full or puts the task in. -/
theorem addTask_cases (task : τ) (woken : Option (Fin n)) (p : Pool n τ) :
    (p.full ∧ addTask task woken p = (-1, p)) ∨
      (¬ p.full ∧ addTask task woken p = (0, signal woken { p with mTasks := p.mTasks ++ [task] })) := by
  unfold addTask
  by_cases hfull : p.full
  · rw [if_pos hfull]
    exact Or.inl ⟨hfull, rfl⟩
  · rw [if_neg hfull]
    exact Or.inr ⟨hfull, rfl⟩

/-- The shutdown has made its first broadcast. -/
def Destroyer.broadcasted : Destroyer → Bool
  | .uncalled => false
  | .stopped => false
  | .joining _ => true
  | .joined _ => true
  | .returned => true

/-- What a section of the shutdown can have done. -/
inductive Destroyed (d : Destroyer) (p : Pool n τ) : Destroyer → Pool n τ → Prop
  | stops (huncalled : d = .uncalled) : Destroyed d p .stopped { p with mPoolState := .stopped }
  | broadcasts (d' : Destroyer) (hstopped : d = .stopped ∨ d.broadcasted = true)
      (hd' : d'.broadcasted = true) : Destroyed d p d' (broadcast p)
  | goesOn (d' : Destroyer) (hd : d.broadcasted = true) (hd' : d'.broadcasted = true) :
      Destroyed d p d' p

theorem destroyThreadpool_cases {d d' : Destroyer} {p p' : Pool n τ}
    (h : destroyThreadpool d p = some (d', p')) : Destroyed d p d' p' := by
  cases d with
  | uncalled =>
      simp only [destroyThreadpool, Option.some.injEq, Prod.mk.injEq] at h
      rcases h with ⟨rfl, rfl⟩
      exact .stops rfl
  | stopped =>
      simp only [destroyThreadpool, Option.some.injEq, Prod.mk.injEq] at h
      rcases h with ⟨rfl, rfl⟩
      exact .broadcasts _ (Or.inl rfl) rfl
  | joining i =>
      unfold destroyThreadpool at h
      by_cases hi : i < n
      · simp only [dif_pos hi] at h
        -- Only a worker that is gone is joined.
        rcases hworker : p.workers ⟨i, hi⟩ with _ | _ | task | _
        all_goals simp only [hworker, reduceCtorEq, Option.some.injEq, Prod.mk.injEq] at h
        rcases h with ⟨rfl, rfl⟩
        exact .goesOn _ rfl rfl
      · simp only [dif_neg hi, Option.some.injEq, Prod.mk.injEq] at h
        rcases h with ⟨rfl, rfl⟩
        exact .goesOn _ rfl rfl
  | joined i =>
      simp only [destroyThreadpool, Option.some.injEq, Prod.mk.injEq] at h
      rcases h with ⟨rfl, rfl⟩
      exact .broadcasts _ (Or.inr rfl) rfl
  | returned =>
      simp only [destroyThreadpool, reduceCtorEq] at h

/-- A worker that runs a task comes back for the next. -/
theorem finish_cases {w : Fin n} {p p' : Pool n τ} (h : finish w p = some p') :
    (∃ task, p.workers w = .running task) ∧ p' = p.setWorker w .ready := by
  unfold finish at h
  rcases hworker : p.workers w with _ | _ | task | _
  all_goals simp only [hworker, reduceCtorEq, Option.some.injEq] at h
  exact ⟨⟨task, rfl⟩, h.symm⟩

theorem spurious_cases {w : Fin n} {p p' : Pool n τ} (h : spurious w p = some p') :
    p.workers w = .blocked ∧ p' = p.setWorker w .ready := by
  unfold spurious at h
  rcases hworker : p.workers w with _ | _ | task | _
  all_goals simp only [hworker, reduceCtorEq, Option.some.injEq] at h
  exact ⟨rfl, h.symm⟩

/-- What a step can have done. -/
inductive Stepped (s : System n τ) : Action n τ → System n τ → Prop
  | refuses (task : τ) (woken : Option (Fin n)) (hfull : s.pool.full) :
      Stepped s (.addTask task woken) { s with calls := s.calls ++ [(task, -1)] }
  | accepts (task : τ) (woken : Option (Fin n)) (hroom : ¬ s.pool.full)
      (hcan : CanWake s.pool woken) :
      Stepped s (.addTask task woken)
        { s with
          pool := signal woken { s.pool with mTasks := s.pool.mTasks ++ [task] }
          calls := s.calls ++ [(task, 0)] }
  | executes (w : Fin n) (task : Option τ) (pool : Pool n τ) (hready : s.pool.workers w = .ready)
      (hexecuted : Executed w s.pool task pool) :
      Stepped s (.executeThread w) { s with pool, taken := s.taken ++ task.toList }
  | finishes (w : Fin n) (task : τ) (hworker : s.pool.workers w = .running task) :
      Stepped s (.finish w) { s with pool := s.pool.setWorker w .ready }
  | wakes (w : Fin n) (hworker : s.pool.workers w = .blocked) :
      Stepped s (.spurious w) { s with pool := s.pool.setWorker w .ready }
  | destroys (destroyer : Destroyer) (pool : Pool n τ)
      (hdestroyed : Destroyed s.destroyer s.pool destroyer pool) :
      Stepped s .destroyThreadpool { s with destroyer, pool }

theorem step_cases {s s' : System n τ} {a : Action n τ} (h : step s a = some s') :
    Stepped s a s' := by
  cases a with
  | addTask task woken =>
      simp only [step, Option.ite_none_right_eq_some, Option.some.injEq] at h
      rcases h with ⟨hcan, rfl⟩
      rcases addTask_cases task woken s.pool with ⟨hfull, hadd⟩ | ⟨hroom, hadd⟩
      · rw [hadd]
        exact .refuses task woken hfull
      · rw [hadd]
        exact .accepts task woken hroom (hcan.resolve_left hroom)
  | executeThread w =>
      simp only [step, Option.map_eq_some_iff, Prod.exists] at h
      rcases h with ⟨task, pool, hexecute, rfl⟩
      rcases executeThread_cases hexecute with ⟨hready, hexecuted⟩
      exact .executes w task pool hready hexecuted
  | finish w =>
      simp only [step, Option.map_eq_some_iff] at h
      rcases h with ⟨pool, hfinish, rfl⟩
      rcases finish_cases hfinish with ⟨⟨task, hworker⟩, rfl⟩
      exact .finishes w task hworker
  | spurious w =>
      simp only [step, Option.map_eq_some_iff] at h
      rcases h with ⟨pool, hspurious, rfl⟩
      rcases spurious_cases hspurious with ⟨hworker, rfl⟩
      exact .wakes w hworker
  | destroyThreadpool =>
      simp only [step, Option.map_eq_some_iff, Prod.exists] at h
      rcases h with ⟨destroyer, pool, hdestroy, rfl⟩
      exact .destroys destroyer pool (destroyThreadpool_cases hdestroy)

theorem accepted_snoc_refused (calls : List (τ × Int32)) (task : τ) :
    accepted (calls ++ [(task, -1)]) = accepted calls := by
  have hrefused : ¬ ((-1 : Int32) = 0) := by decide
  simp only [accepted, List.filter_append, List.filter_cons, hrefused, decide_false,
    Bool.false_eq_true, if_false, List.filter_nil, List.append_nil]

theorem accepted_snoc_zero (calls : List (τ × Int32)) (task : τ) :
    accepted (calls ++ [(task, 0)]) = accepted calls ++ [task] := by
  simp only [accepted, List.filter_append, List.filter_cons, decide_true, if_true, List.filter_nil,
    List.map_append, List.map_cons, List.map_nil]

/-- The queue conserves its tasks, and a call is answered with zero or minus
    one. -/
structure Orderly (s : System n τ) : Prop where
  conserved : Conserved (accepted s.calls) s.taken s.pool.mTasks
  answers : ∀ call ∈ s.calls, call.2 = 0 ∨ call.2 = -1

theorem step_conserved (s : System n τ) (a : Action n τ) (s' : System n τ) (hs : Orderly s)
    (h : step s a = some s') : Orderly s' := by
  have hanswers : ∀ (task : τ) (res : Int32), res = 0 ∨ res = -1 →
      ∀ call ∈ s.calls ++ [(task, res)], call.2 = 0 ∨ call.2 = -1 := by
    intro task res hres call hmem
    rcases List.mem_append.mp hmem with hold | hnew
    · exact hs.answers call hold
    · rw [List.mem_singleton.mp hnew]
      exact hres
  cases step_cases h with
  | refuses task woken _ =>
      refine ⟨?_, hanswers task _ (Or.inr rfl)⟩
      simp only [accepted_snoc_refused]
      exact hs.conserved
  | accepts task woken _ _ =>
      refine ⟨?_, hanswers task _ (Or.inl rfl)⟩
      simp only [accepted_snoc_zero, signal_mTasks]
      exact conserved_push hs.conserved [task]
  | executes w task pool _ hexecuted =>
      refine ⟨?_, hs.answers⟩
      have hconserved := hs.conserved
      cases hexecuted with
      | blocks _ _ | exits _ =>
          simp only [Option.toList_none, List.append_nil, setWorker_mTasks]
          exact hconserved
      | takes task rest _ htasks =>
          rw [htasks] at hconserved
          exact conserved_pop hconserved
  | finishes _ _ _ | wakes _ _ => exact ⟨hs.conserved, hs.answers⟩
  | destroys destroyer pool hdestroyed =>
      cases hdestroyed with
      | stops _ | broadcasts _ _ _ | goesOn _ _ _ => exact ⟨hs.conserved, hs.answers⟩

/-- A pool that is stopped stays so, and no task is taken from it. -/
theorem step_stopped (s : System n τ) (a : Action n τ) (s' : System n τ)
    (hs : s.pool.mPoolState = .stopped) (h : step s a = some s') :
    s'.pool.mPoolState = .stopped ∧ s'.taken = s.taken := by
  cases step_cases h with
  | refuses _ _ _ | finishes _ _ _ | wakes _ _ => exact ⟨hs, rfl⟩
  | accepts task woken _ _ =>
      refine ⟨?_, rfl⟩
      simp only [signal_mPoolState]
      exact hs
  | executes w task pool _ hexecuted =>
      cases hexecuted with
      | blocks hrunning _ => exact absurd hs hrunning
      | exits _ => exact ⟨hs, List.append_nil _⟩
      | takes _ _ hrunning _ => exact absurd hs hrunning
  | destroys destroyer pool hdestroyed =>
      cases hdestroyed with
      | stops _ => exact ⟨rfl, rfl⟩
      | broadcasts _ _ _ | goesOn _ _ _ => exact ⟨hs, rfl⟩

theorem run_stopped (s t : System n τ) (actions : List (Action n τ))
    (hs : s.pool.mPoolState = .stopped) (hrun : run step s actions = some t) : t.taken = s.taken :=
  (run_invariant step (fun u => u.pool.mPoolState = .stopped ∧ u.taken = s.taken)
    (fun u a u' hu h => by
      rcases step_stopped u a u' hu.1 h with ⟨hstopped, htaken⟩
      exact ⟨hstopped, htaken.trans hu.2⟩) s t actions ⟨hs, rfl⟩ hrun).2

theorem orderly_start (limit : Int) : Orderly (System.start n τ limit) :=
  ⟨conserved_nil, fun _ hmem => absurd hmem List.not_mem_nil⟩

/-- In every run the tasks accepted are those taken, in the order in which they
    were taken, and those still in the queue. So no task is taken twice that was
    not accepted twice, none is that was refused, and none once the pool has
    been stopped. -/
theorem tasks_in_order (limit : Int) (actions : List (Action n τ)) (s : System n τ)
    (hrun : run step (System.start n τ limit) actions = some s) :
    accepted s.calls = s.taken ++ s.pool.mTasks ∧
      ((accepted s.calls).Nodup → s.taken.Nodup) ∧
      (∀ call ∈ s.calls, call.2 = 0 ∨ call.2 = -1) ∧
      (∀ task, (task, 0) ∉ s.calls → task ∉ s.taken) ∧
      (s.pool.mPoolState = .stopped →
        ∀ more t, run step s more = some t → t.taken = s.taken) := by
  have hs := run_invariant step Orderly step_conserved _ s actions (orderly_start limit) hrun
  refine ⟨hs.conserved, fun hnodup => ?_, hs.answers, fun task hnone => ?_, fun hstopped => ?_⟩
  · exact hnodup.sublist (prefix_of_conserved hs.conserved).sublist
  · refine not_output hs.conserved fun hmem => hnone ?_
    -- An accepted task is that of a call that returned zero.
    rcases List.mem_map.mp hmem with ⟨call, hcall, rfl⟩
    rcases List.mem_filter.mp hcall with ⟨hcall, hzero⟩
    rw [decide_eq_true_eq] at hzero
    rw [← hzero]
    exact hcall
  · exact fun more t => run_stopped s t more hstopped

/-- Two producers, one of which comes too late, and two workers. -/
theorem tasks_in_order_sample :
    ∃ s, run step (System.start 2 Nat 0) [.executeThread 0, .addTask 7 (some 0), .executeThread 1,
        .addTask 8 none, .destroyThreadpool, .executeThread 0] = some s ∧
      s.taken = [7] ∧ s.pool.mTasks = [8] ∧ accepted s.calls = s.taken ++ s.pool.mTasks := by
  have hparts : (run step (System.start 2 Nat 0) [.executeThread 0, .addTask 7 (some 0),
      .executeThread 1, .addTask 8 none, .destroyThreadpool, .executeThread 0]).map
      (fun s => (s.taken, s.pool.mTasks)) = some ([7], [8]) := by decide +kernel
  rcases Option.map_eq_some_iff.mp hparts with ⟨s, hrun, hparts⟩
  rcases Prod.mk.inj hparts with ⟨htaken, htasks⟩
  exact ⟨s, hrun, htaken, htasks, (tasks_in_order 0 _ s hrun).1⟩

/-- There is nothing to do, or somebody is awake to do it. -/
def Awake (p : Pool n τ) : Prop :=
  p.mTasks ≠ [] → p.mPoolState ≠ .stopped → ∃ w, p.workers w ≠ .blocked

/-- A worker that has just been put somewhere else than to sleep is awake. -/
theorem awake_setWorker (p : Pool n τ) (w : Fin n) {worker : Worker τ} (h : worker ≠ .blocked) :
    Awake (p.setWorker w worker) := by
  intro _ _
  refine ⟨w, ?_⟩
  rw [setWorker_self]
  exact h

/-- A signal leaves somebody awake, whether it woke somebody or found nobody to
    wake. -/
theorem awake_signal (hn : 0 < n) (p : Pool n τ) {woken : Option (Fin n)} (h : CanWake p woken) :
    Awake (signal woken p) := by
  cases woken with
  | some w => exact awake_setWorker p w ready_ne_blocked
  | none => exact fun _ _ => ⟨⟨0, hn⟩, h _⟩

theorem step_awake (hn : 0 < n) (s : System n τ) (a : Action n τ) (s' : System n τ)
    (hs : Awake s.pool) (h : step s a = some s') : Awake s'.pool := by
  cases step_cases h with
  | refuses _ _ _ => exact hs
  | accepts task woken _ hcan => exact awake_signal hn _ hcan
  | executes w task pool _ hexecuted =>
      cases hexecuted with
      -- A worker goes to sleep only where there is nothing to do.
      | blocks _ hempty => exact fun hne _ => absurd hempty hne
      | exits _ => exact awake_setWorker _ w exited_ne_blocked
      | takes task _ _ _ => exact awake_setWorker _ w (running_ne_blocked task)
  | finishes w _ _ | wakes w _ => exact awake_setWorker _ w ready_ne_blocked
  | destroys destroyer pool hdestroyed =>
      cases hdestroyed with
      | stops _ => exact fun _ hrunning => absurd rfl hrunning
      | broadcasts _ _ _ => exact fun _ _ => ⟨⟨0, hn⟩, wake_ne_blocked _⟩
      | goesOn _ _ _ => exact hs

/-- From its first section on the shutdown finds the pool stopped, and from its
    first broadcast on nobody is blocked. -/
structure Roused (s : System n τ) : Prop where
  stopped : s.destroyer ≠ .uncalled → s.pool.mPoolState = .stopped
  roused : s.destroyer.broadcasted = true → ∀ w, s.pool.workers w ≠ .blocked

theorem broadcasted_called {d : Destroyer} (h : d.broadcasted = true) : d ≠ .uncalled := by
  rintro rfl
  exact Bool.noConfusion h

/-- Where nobody is blocked, putting a worker elsewhere than to sleep leaves
    nobody blocked. -/
theorem setWorker_roused {p : Pool n τ} (hp : ∀ w, p.workers w ≠ .blocked) (w : Fin n)
    {worker : Worker τ} (h : worker ≠ .blocked) : ∀ w', (p.setWorker w worker).workers w' ≠ .blocked := by
  intro w'
  by_cases heq : w' = w
  · subst heq
    rw [setWorker_self]
    exact h
  · simp only [Pool.setWorker, Function.update_of_ne heq]
    exact hp w'

theorem step_roused (s : System n τ) (a : Action n τ) (s' : System n τ) (hs : Roused s)
    (h : step s a = some s') : Roused s' := by
  cases step_cases h with
  | refuses _ _ _ => exact ⟨hs.stopped, hs.roused⟩
  | accepts task woken _ _ =>
      refine ⟨fun hcalled => ?_, fun hb => ?_⟩
      · simp only [signal_mPoolState]
        exact hs.stopped hcalled
      · cases woken with
        | some w => exact setWorker_roused (hs.roused hb) w ready_ne_blocked
        | none => exact hs.roused hb
  | executes w task pool _ hexecuted =>
      cases hexecuted with
      | blocks hrunning _ =>
          -- The pool is not stopped, so the shutdown has not been called.
          exact ⟨hs.stopped, fun hb => absurd (hs.stopped (broadcasted_called hb)) hrunning⟩
      | exits _ =>
          exact ⟨hs.stopped, fun hb => setWorker_roused (hs.roused hb) w exited_ne_blocked⟩
      | takes task _ _ _ =>
          exact ⟨hs.stopped, fun hb => setWorker_roused (hs.roused hb) w (running_ne_blocked task)⟩
  | finishes w _ _ | wakes w _ =>
      exact ⟨hs.stopped, fun hb => setWorker_roused (hs.roused hb) w ready_ne_blocked⟩
  | destroys destroyer pool hdestroyed =>
      cases hdestroyed with
      | stops _ => exact ⟨fun _ => rfl, fun hb => Bool.noConfusion hb⟩
      | broadcasts d' hd hd' =>
          refine ⟨fun _ => ?_, fun _ w => wake_ne_blocked _⟩
          rcases hd with hstopped | hb
          · exact hs.stopped (by
              rw [hstopped]
              rintro ⟨⟩)
          · exact hs.stopped (broadcasted_called hb)
      | goesOn d' hd hd' =>
          exact ⟨fun _ => hs.stopped (broadcasted_called hd), fun _ => hs.roused hd⟩

/-- The shutdown does not go back behind its first broadcast. -/
theorem step_broadcasted (s : System n τ) (a : Action n τ) (s' : System n τ)
    (hs : s.destroyer.broadcasted = true) (h : step s a = some s') :
    s'.destroyer.broadcasted = true := by
  cases step_cases h with
  | refuses _ _ _ | accepts _ _ _ _ | executes _ _ _ _ _ | finishes _ _ _ | wakes _ _ => exact hs
  | destroys destroyer pool hdestroyed =>
      cases hdestroyed with
      | stops huncalled => exact absurd huncalled (broadcasted_called hs)
      | broadcasts _ _ hd' => exact hd'
      | goesOn _ _ hd' => exact hd'

theorem roused_start (limit : Int) : Roused (System.start n τ limit) :=
  ⟨fun hcalled => absurd rfl hcalled, fun hb => Bool.noConfusion hb⟩

/-- In every run, where there are tasks and the pool is not stopped, not all
    workers are blocked; and once the shutdown has made its first broadcast
    nobody is, then or later. -/
theorem no_lost_wakeup (hn : 0 < n) (limit : Int) (actions : List (Action n τ)) (s : System n τ)
    (hrun : run step (System.start n τ limit) actions = some s) :
    (s.pool.mTasks ≠ [] → s.pool.mPoolState ≠ .stopped → ∃ w, s.pool.workers w ≠ .blocked) ∧
      (s.destroyer.broadcasted = true →
        ∀ more t, run step s more = some t → ∀ w, t.pool.workers w ≠ .blocked) := by
  constructor
  · exact run_invariant step (fun s => Awake s.pool) (step_awake hn) _ s actions
      (fun hne _ => absurd rfl hne) hrun
  · intro hb more t hmore
    have hroused := run_invariant step Roused step_roused _ s actions (roused_start limit) hrun
    have hlater := run_invariant step (fun s => Roused s ∧ s.destroyer.broadcasted = true)
      (fun u a u' hu h => ⟨step_roused u a u' hu.1 h, step_broadcasted u a u' hu.2 h⟩) s t more
      ⟨hroused, hb⟩ hmore
    exact hlater.1.roused hlater.2

/-- Two workers are blocked when a task comes, and the shutdown follows. -/
theorem no_lost_wakeup_sample :
    ∃ s, run step (System.start 2 Nat 0) [.executeThread 0, .executeThread 1, .addTask 7 (some 1)]
        = some s ∧ s.pool.workers 0 = .blocked ∧ s.pool.mTasks = [7] ∧
      ∃ w, s.pool.workers w ≠ .blocked := by
  have hparts : (run step (System.start 2 Nat 0)
      [.executeThread 0, .executeThread 1, .addTask 7 (some 1)]).map
      (fun s => (s.pool.workers 0, s.pool.mTasks, s.pool.mPoolState))
      = some (.blocked, [7], .started) := by decide +kernel
  rcases Option.map_eq_some_iff.mp hparts with ⟨s, hrun, hparts⟩
  rcases Prod.mk.inj hparts with ⟨hblocked, hparts⟩
  rcases Prod.mk.inj hparts with ⟨htasks, hstate⟩
  refine ⟨s, hrun, hblocked, htasks, ?_⟩
  refine (no_lost_wakeup (by decide) 0 _ s hrun).1 ?_ ?_
  · rw [htasks]
    exact List.cons_ne_nil _ _
  · rw [hstate]
    decide

end ThreadPool

end ZeusOS
