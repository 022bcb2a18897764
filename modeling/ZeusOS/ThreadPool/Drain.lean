import ZeusOS.ThreadPool.Shutdown

/-!
# Work is Done, and No More than That

What a pool does that is left alone. Its workers take the lock, take tasks and
come back, and when there is nothing left they sleep.

How often they take the lock is bounded by what is done to them. A worker that
goes to sleep stays asleep until it is woken; a task is taken once and come back
from once. So a task is good for three sections, the two it takes to do it and
the one in which the worker woken for it may find that somebody else was faster;
and a wake-up for no reason is good for one.

And they do not stop before the work is done. A worker that cannot go on is
asleep, since it would be gone only from a stopped pool; all of them being
asleep, the queue is empty. So a pool in which no worker can go on has taken
every task that was accepted, and every pool gets there by its own sections.

## Main definitions

* `Worker.load`, `Pool.load`: The sections that are due.
* `Action.work`, `Action.stirs`: What is done, and what it is owed to.
* `Living`: Nobody leaves a pool that is not stopped.
* `Drained`: Nothing is left.

## Theorems

* `step_load`: What a step does to the sections due.
* `drained_of_stuck`: Where nobody can go on, everything is done.
* `work_bounded`: How often workers take the lock, in every run.
* `work_drains`: The work, in every run.
-/

namespace ZeusOS

namespace ThreadPool

open Foundation.Fifo Foundation.Potential Foundation.Runs

variable {n : Nat} {τ : Type}

/-- The sections a worker is due to go through before it sleeps. -/
def Worker.load : Worker τ → Nat
  | .ready => 1
  | .blocked => 0
  | .running _ => 2
  | .exited => 0

/-- The sections due in the pool: those of its workers, and two for every task
    in the queue. -/
def Pool.load (p : Pool n τ) : Nat :=
  total (fun w => (p.workers w).load) (List.finRange n) + 2 * p.mTasks.length

/-- The sections of the workers. -/
def Action.work : Action n τ → Nat
  | .addTask _ _ => 0
  | .executeThread _ => 1
  | .finish _ => 1
  | .spurious _ => 0
  | .destroyThreadpool => 0

/-- The sections of the workers that an action gives rise to. -/
def Action.stirs : Action n τ → Nat
  | .addTask _ _ => 3
  | .executeThread _ => 0
  | .finish _ => 0
  | .spurious _ => 1
  | .destroyThreadpool => n

theorem load_setWorker (p : Pool n τ) (w : Fin n) (worker : Worker τ) :
    (p.setWorker w worker).load + (p.workers w).load = p.load + worker.load := by
  have hother : ∀ w', w' ≠ w →
      ((p.setWorker w worker).workers w').load = (p.workers w').load := by
    intro w' hne
    rw [setWorker_workers, if_neg hne]
  have hupdate := total_update (List.nodup_finRange n) (List.mem_finRange w) hother
  rw [setWorker_self] at hupdate
  unfold Pool.load
  rw [setWorker_mTasks]
  omega

theorem load_signal {p : Pool n τ} {woken : Option (Fin n)} (hcan : CanWake p woken) :
    (signal woken p).load ≤ p.load + 1 := by
  cases woken with
  | none => exact Nat.le_succ _
  | some w =>
      have hblocked : p.workers w = .blocked := hcan
      have hset := load_setWorker p w .ready
      rw [hblocked] at hset
      simp only [Worker.load] at hset
      simp only [signal]
      omega

/-- A broadcast wakes no more than all workers. -/
theorem load_broadcast (p : Pool n τ) : (broadcast p).load ≤ p.load + n := by
  have hwake : ∀ worker : Worker τ, worker.wake.load ≤ worker.load + 1 := by
    intro worker
    rcases worker with _ | _ | task | _
    · exact Nat.le_succ _
    · exact Nat.le_refl _
    · exact Nat.le_succ _
    · exact Nat.le_succ _
  have hmono : total (fun w => ((broadcast p).workers w).load) (List.finRange n)
      ≤ total (fun w => (p.workers w).load + 1) (List.finRange n) :=
    total_mono fun w _ => hwake (p.workers w)
  rw [total_succ, List.length_finRange] at hmono
  have htasks : (broadcast p).mTasks = p.mTasks := rfl
  unfold Pool.load
  rw [htasks]
  omega

theorem load_push (p : Pool n τ) (task : τ) :
    ({ p with mTasks := p.mTasks ++ [task] } : Pool n τ).load = p.load + 2 := by
  simp only [Pool.load, List.length_append, List.length_singleton]
  omega

theorem load_pop {p : Pool n τ} {task : τ} {rest : List τ} (htasks : p.mTasks = task :: rest) :
    ({ p with mTasks := rest } : Pool n τ).load + 2 = p.load := by
  simp only [Pool.load, htasks, List.length_cons]
  omega

/-- A section of a worker is one that was due, and the others make no more of
    them due than they are owed. -/
theorem step_load (s : System n τ) (a : Action n τ) (s' : System n τ) (h : step s a = some s') :
    s'.pool.load + a.work ≤ s.pool.load + a.stirs := by
  cases step_cases h with
  | refuses _ _ _ => exact Nat.le_add_right _ _
  | accepts task woken _ hcan =>
      have hsignal := load_signal (canWake_push hcan task)
      have hpush := load_push s.pool task
      simp only [Action.work, Action.stirs]
      omega
  | executes w task pool hready hexecuted =>
      cases hexecuted with
      | blocks _ _ =>
          have hset := load_setWorker s.pool w .blocked
          rw [hready] at hset
          simp only [Worker.load] at hset
          simp only [Action.work, Action.stirs]
          omega
      | exits _ =>
          have hset := load_setWorker s.pool w .exited
          rw [hready] at hset
          simp only [Worker.load] at hset
          simp only [Action.work, Action.stirs]
          omega
      | takes task rest _ htasks =>
          have hset := load_setWorker { s.pool with mTasks := rest } w (.running task)
          have hpop := load_pop htasks
          rw [hready] at hset
          simp only [Worker.load] at hset
          simp only [Action.work, Action.stirs]
          omega
  | finishes w task hworker =>
      have hset := load_setWorker s.pool w .ready
      rw [hworker] at hset
      simp only [Worker.load] at hset
      simp only [Action.work, Action.stirs]
      omega
  | wakes w hworker =>
      have hset := load_setWorker s.pool w .ready
      rw [hworker] at hset
      simp only [Worker.load] at hset
      simp only [Action.work, Action.stirs]
      omega
  | destroys destroyer pool hdestroyed =>
      simp only [Action.work, Action.stirs]
      cases hdestroyed with
      | stops _ | goesOn _ _ _ => exact Nat.le_add_right _ _
      | broadcasts _ _ _ => exact load_broadcast s.pool

theorem load_amortized :
    Amortized step (fun _ : System n τ => True) (fun s => s.pool.load) Action.stirs Action.work :=
  ⟨fun _ _ _ _ _ => trivial, fun s a s' _ h => step_load s a s' h⟩

/-- Nobody leaves a pool that is not stopped, and in it the tasks are in order
    and somebody is awake for them. -/
structure Living (s : System n τ) : Prop where
  orderly : Orderly s
  awake : Awake s.pool
  present : s.pool.mPoolState ≠ .stopped → ∀ w, s.pool.workers w ≠ .exited

theorem setWorker_present {p : Pool n τ} (hp : ∀ w, p.workers w ≠ .exited) (w : Fin n)
    {worker : Worker τ} (h : worker ≠ .exited) :
    ∀ w', (p.setWorker w worker).workers w' ≠ .exited := by
  intro w'
  rw [setWorker_workers]
  by_cases heq : w' = w
  · rw [if_pos heq]
    exact h
  · rw [if_neg heq]
    exact hp w'

theorem wake_present {worker : Worker τ} (h : worker ≠ .exited) : worker.wake ≠ .exited := by
  rcases worker with _ | _ | task | _
  · exact h
  · rintro ⟨⟩
  · exact h
  · exact absurd rfl h

theorem step_present (s : System n τ) (a : Action n τ) (s' : System n τ)
    (hs : s.pool.mPoolState ≠ .stopped → ∀ w, s.pool.workers w ≠ .exited)
    (h : step s a = some s') (hrunning : s'.pool.mPoolState ≠ .stopped) :
    ∀ w, s'.pool.workers w ≠ .exited := by
  -- A pool that is not stopped now was not stopped before.
  have hbefore : s.pool.mPoolState ≠ .stopped :=
    fun hstopped => hrunning (step_stopped s a s' hstopped h).1
  have hpresent := hs hbefore
  have hready : (.ready : Worker τ) ≠ .exited := by
    rintro ⟨⟩
  cases step_cases h with
  | refuses _ _ _ => exact hpresent
  | accepts task woken _ _ =>
      cases woken with
      | none => exact hpresent
      | some w => exact setWorker_present hpresent w hready
  | executes w task pool _ hexecuted =>
      cases hexecuted with
      | blocks _ _ => exact setWorker_present hpresent w fun hc => exited_ne_blocked hc.symm
      | exits hstopped => exact absurd hstopped hbefore
      | takes task _ _ _ =>
          refine setWorker_present hpresent w ?_
          rintro ⟨⟩
  | finishes w _ _ | wakes w _ => exact setWorker_present hpresent w hready
  | destroys destroyer pool hdestroyed =>
      cases hdestroyed with
      | stops _ => exact absurd rfl hrunning
      | broadcasts _ _ _ => exact fun w => wake_present (hpresent w)
      | goesOn _ _ _ => exact hpresent

theorem step_living (hn : 0 < n) (s : System n τ) (a : Action n τ) (s' : System n τ)
    (hs : Living s) (h : step s a = some s') : Living s' :=
  ⟨step_conserved s a s' hs.orderly h, step_awake hn s a s' hs.awake h,
    step_present s a s' hs.present h⟩

theorem living_start (limit : Int) : Living (System.start n τ limit) := by
  refine ⟨orderly_start limit, fun hne _ => absurd rfl hne, fun _ _ => ?_⟩
  rintro ⟨⟩

/-- The sections of the workers, as a kind of action. -/
inductive Working : Action n τ → Prop
  | executeThread (w : Fin n) : Working (.executeThread w)
  | finish (w : Fin n) : Working (.finish w)

theorem working_work (a : Action n τ) (h : Working a) : a.stirs = 0 ∧ 0 < a.work := by
  cases h with
  | executeThread _ | finish _ => exact ⟨rfl, Nat.one_pos⟩

/-- Everything that was accepted has been taken, and everybody sleeps. -/
structure Drained (s : System n τ) : Prop where
  asleep : ∀ w, s.pool.workers w = .blocked
  empty : s.pool.mTasks = []
  done : s.taken = accepted s.calls

/-- Where no worker can go on, nothing is left to do. -/
theorem drained_of_stuck {s : System n τ} (hs : Living s)
    (hrunning : s.pool.mPoolState ≠ .stopped)
    (hstuck : ∀ a, Working a → step s a = none) : Drained s := by
  have hasleep : ∀ w, s.pool.workers w = .blocked := by
    intro w
    rcases hworker : s.pool.workers w with _ | _ | task | _
    · -- A worker that is ready can have the lock.
      have hnone := hstuck _ (.executeThread w)
      simp only [step, Option.map_eq_none_iff] at hnone
      unfold executeThread at hnone
      simp only [hworker] at hnone
      by_cases hempty : s.pool.mTasks.isEmpty = true
      · rw [if_pos ⟨hrunning, hempty⟩] at hnone
        cases hnone
      · rw [if_neg fun hc => hempty hc.2, if_neg hrunning] at hnone
        rcases htasks : s.pool.mTasks with _ | ⟨task, rest⟩
        · rw [htasks] at hempty
          exact absurd rfl hempty
        · simp only [htasks, reduceCtorEq] at hnone
    · rfl
    · have hnone := hstuck _ (.finish w)
      simp only [step, finish, hworker, Option.map_some, reduceCtorEq] at hnone
    · exact absurd hworker (hs.present hrunning w)
  have hempty : s.pool.mTasks = [] := by
    by_contra hne
    rcases hs.awake hne hrunning with ⟨w, hw⟩
    exact hw (hasleep w)
  refine ⟨hasleep, hempty, ?_⟩
  have hconserved := hs.orderly.conserved
  rw [hempty] at hconserved
  exact output_of_empty hconserved

/-- In every run the workers take the lock and come back from their tasks no
    more than three times for every call of `add_task`, once for every worker,
    once for every wake-up without a signal, and once for every worker at each
    broadcast. -/
theorem work_bounded (limit : Int) (actions : List (Action n τ)) (s : System n τ)
    (hrun : run step (System.start n τ limit) actions = some s) :
    s.pool.load + total Action.work actions ≤ n + total Action.stirs actions := by
  have hspent := amortized_run load_amortized trivial hrun
  have hstart : (System.start n τ limit).pool.load ≤ n := by
    have hall : total (fun _ : Fin n => 1) (List.finRange n) ≤ 1 * (List.finRange n).length :=
      total_le fun _ _ => Nat.le_refl 1
    rw [List.length_finRange, Nat.one_mul] at hall
    exact hall
  omega

/-- Sections of workers leave the state of the pool and the calls as they are. -/
theorem working_kept {s s' : System n τ} {a : Action n τ} (ha : Working a)
    (h : step s a = some s') :
    s'.pool.mPoolState = s.pool.mPoolState ∧ s'.calls = s.calls := by
  cases step_cases h with
  | refuses _ _ _ | accepts _ _ _ _ | wakes _ _ | destroys _ _ _ => cases ha
  | finishes _ _ _ => exact ⟨rfl, rfl⟩
  | executes w task pool _ hexecuted =>
      cases hexecuted with
      | blocks _ _ | exits _ | takes _ _ _ _ => exact ⟨rfl, rfl⟩

/-- In every run of a pool that has a worker and is not stopped: where no worker
    can go on, everything that was accepted has been taken, in order, and
    everybody sleeps; and wherever the pool is, its workers get there by
    themselves, in no more sections than are due. -/
theorem work_drains (hn : 0 < n) (limit : Int) (actions : List (Action n τ)) (s : System n τ)
    (hrun : run step (System.start n τ limit) actions = some s)
    (hrunning : s.pool.mPoolState ≠ .stopped) :
    ((∀ a, Working a → step s a = none) ↔ Drained s) ∧
      ∃ more t, run step s more = some t ∧ (∀ a ∈ more, Working a) ∧
        more.length ≤ s.pool.load ∧ Drained t ∧ t.calls = s.calls := by
  have hs : Living s := run_invariant step Living (step_living hn) _ s actions (living_start limit) hrun
  constructor
  · constructor
    · exact drained_of_stuck hs hrunning
    · rintro hdrained a (w | w)
      · simp only [step, executeThread, hdrained.asleep w, Option.map_none]
      · simp only [step, finish, hdrained.asleep w, Option.map_none]
  · have hamortized : Amortized step (Living (n := n) (τ := τ)) (fun s => s.pool.load)
        Action.stirs Action.work :=
      ⟨step_living hn, fun s a s' _ h => step_load s a s' h⟩
    have hgoes : ∀ u : System n τ, Living u → ¬ (∀ a, Working a → step u a = none) →
        ∃ a, Working a ∧ (step u a).isSome = true := by
      intro u _ hstuck
      push Not at hstuck
      rcases hstuck with ⟨a, ha, hsome⟩
      exact ⟨a, ha, Option.isSome_iff_ne_none.mpr hsome⟩
    rcases amortized_finishes hamortized working_work hgoes hs with
      ⟨more, t, hmore, hstuck, ht, hall, hlength⟩
    have hkept : t.pool.mPoolState = s.pool.mPoolState ∧ t.calls = s.calls :=
      run_invariant_mem step
        (fun u => u.pool.mPoolState = s.pool.mPoolState ∧ u.calls = s.calls) more
        (fun u a u' ha hu h => by
          rcases working_kept (hall a ha) h with ⟨hstate, hcalls⟩
          exact ⟨hstate.trans hu.1, hcalls.trans hu.2⟩) s t ⟨rfl, rfl⟩ hmore
    refine ⟨more, t, hmore, hall, hlength, ?_, hkept.2⟩
    refine drained_of_stuck ht ?_ hstuck
    rw [hkept.1]
    exact hrunning

/-- Two workers, three tasks, of which one has been taken. -/
theorem work_bounded_sample :
    ∃ s, run step (System.start 2 Nat 0) [.executeThread 0, .addTask 7 (some 0), .addTask 8 none,
        .executeThread 1, .addTask 9 none] = some s ∧
      s.pool.load + total Action.work [.executeThread 0, .addTask 7 (some 0), .addTask 8 none,
        .executeThread 1, (.addTask 9 none : Action 2 Nat)] ≤ 2 + 9 := by
  have hsome : (run step (System.start 2 Nat 0) [.executeThread 0, .addTask 7 (some 0),
      .addTask 8 none, .executeThread 1, .addTask 9 none]).isSome = true := by decide +kernel
  rcases Option.isSome_iff_exists.mp hsome with ⟨s, hrun⟩
  exact ⟨s, hrun, work_bounded 0 _ s hrun⟩

theorem work_drains_sample :
    ∃ s, run step (System.start 2 Nat 0) [.executeThread 0, .addTask 7 (some 0), .addTask 8 none,
        .executeThread 1, .addTask 9 none] = some s ∧
      ∃ more t, run step s more = some t ∧ (∀ a ∈ more, Working a) ∧
        more.length ≤ s.pool.load ∧ Drained t ∧ t.calls = s.calls := by
  have hparts : (run step (System.start 2 Nat 0) [.executeThread 0, .addTask 7 (some 0),
      .addTask 8 none, .executeThread 1, .addTask 9 none]).map (fun s => s.pool.mPoolState)
      = some .started := by decide +kernel
  rcases Option.map_eq_some_iff.mp hparts with ⟨s, hrun, hstate⟩
  refine ⟨s, hrun, (work_drains (by decide) 0 _ s hrun ?_).2⟩
  rw [hstate]
  rintro ⟨⟩

end ThreadPool

end ZeusOS
