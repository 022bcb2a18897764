import Mathlib.Data.List.FinRange
import ZeusOS.Foundation.Potential
import ZeusOS.ThreadPool.Queue

/-!
# The Shutdown Completes

`destroy_threadpool` sets the state, broadcasts, and then joins the workers one
after another. Joining waits, so it matters that what it waits for comes.

Once the state is set, a worker is on its way out: one that runs a task finishes
it and comes back for the lock, one that is blocked is woken, and one that gets
the lock leaves. Nobody goes back to sleep. So every worker is a number of
sections away from being gone, and the shutdown is a number of sections away
from its return, and every section but those of `add_task` brings one of them
nearer. That a task comes to an end is not for the pool to say; that it may is
the section `finish`.

The mutex has a flag beside its lock, set after locking and cleared before
unlocking, and its destructor spins until the flag is clear. A wait gives the
lock back without clearing the flag, and takes it again without setting it. So
the flag can be set while nobody has the lock; but then somebody waits, and
when the pool is stopped nobody does any more.

## Main definitions

* `Advanced`: What a section of the shutdown does.
* `Worker.distance`, `Destroyer.distance`: How far it is to the end.
* `Closing`: The shutdown is under way.
* `Mutexed`, `stepMutexed`: The pool with the flag of its mutex.

## Theorems

* `step_exited`: Who is gone stays gone.
* `step_closing`, `step_nearer`: What a step does to the shutdown.
* `closing_goes`: The shutdown is never stuck.
* `shutdown_completes`: Every shutdown, in every run.
* `isLocked_cleared`: The flag, in every run.
-/

namespace ZeusOS

namespace ThreadPool

open Foundation.Potential Foundation.Runs

variable {n : Nat} {τ : Type}

/-- What a section of the shutdown does. -/
inductive Advanced (p : Pool n τ) : Destroyer → Destroyer → Pool n τ → Prop
  | stops : Advanced p .uncalled .stopped { p with mPoolState := .stopped }
  | rouses : Advanced p .stopped (.joining 0) (broadcast p)
  | joins (i : Nat) (hi : i < n) (hexited : p.workers ⟨i, hi⟩ = .exited) :
      Advanced p (.joining i) (.joined i) p
  | returns (i : Nat) (hi : n ≤ i) : Advanced p (.joining i) .returned p
  | goesOn (i : Nat) : Advanced p (.joined i) (.joining (i + 1)) (broadcast p)

theorem destroyThreadpool_advanced {d d' : Destroyer} {p p' : Pool n τ}
    (h : destroyThreadpool d p = some (d', p')) : Advanced p d d' p' := by
  cases d with
  | uncalled =>
      simp only [destroyThreadpool, Option.some.injEq, Prod.mk.injEq] at h
      rcases h with ⟨rfl, rfl⟩
      exact .stops
  | stopped =>
      simp only [destroyThreadpool, Option.some.injEq, Prod.mk.injEq] at h
      rcases h with ⟨rfl, rfl⟩
      exact .rouses
  | joining i =>
      unfold destroyThreadpool at h
      by_cases hi : i < n
      · simp only [dif_pos hi] at h
        -- Only a worker that is gone is joined.
        rcases hworker : p.workers ⟨i, hi⟩ with _ | _ | task | _
        all_goals simp only [hworker, reduceCtorEq, Option.some.injEq, Prod.mk.injEq] at h
        rcases h with ⟨rfl, rfl⟩
        exact .joins i hi hworker
      · simp only [dif_neg hi, Option.some.injEq, Prod.mk.injEq] at h
        rcases h with ⟨rfl, rfl⟩
        exact .returns i (Nat.le_of_not_lt hi)
  | joined i =>
      simp only [destroyThreadpool, Option.some.injEq, Prod.mk.injEq] at h
      rcases h with ⟨rfl, rfl⟩
      exact .goesOn i
  | returned =>
      simp only [destroyThreadpool, reduceCtorEq] at h

theorem step_advanced {s s' : System n τ} (h : step s .destroyThreadpool = some s') :
    ∃ d p, Advanced s.pool s.destroyer d p ∧ s' = { s with destroyer := d, pool := p } := by
  simp only [step, Option.map_eq_some_iff, Prod.exists] at h
  rcases h with ⟨d, p, hdestroy, rfl⟩
  exact ⟨d, p, destroyThreadpool_advanced hdestroy, rfl⟩

/-- A worker that is put elsewhere leaves the others where they are. -/
theorem setWorker_workers (p : Pool n τ) (w w' : Fin n) (worker : Worker τ) :
    (p.setWorker w worker).workers w' = if w' = w then worker else p.workers w' :=
  Function.update_apply _ _ _ _

theorem setWorker_exited {p : Pool n τ} {w w' : Fin n} {worker : Worker τ}
    (hw : p.workers w ≠ .exited) (h : p.workers w' = .exited) :
    (p.setWorker w worker).workers w' = .exited := by
  rw [setWorker_workers, if_neg, h]
  rintro rfl
  exact hw h

/-- Whom a signal can wake does not depend on the queue. -/
theorem canWake_push {p : Pool n τ} {woken : Option (Fin n)} (hcan : CanWake p woken) (task : τ) :
    CanWake { p with mTasks := p.mTasks ++ [task] } woken := by
  cases woken with
  | none | some _ => exact hcan

/-- Whom a signal wakes is not gone. -/
theorem signal_exited {p : Pool n τ} {woken : Option (Fin n)} (hcan : CanWake p woken) {w : Fin n}
    (h : p.workers w = .exited) : (signal woken p).workers w = .exited := by
  cases woken with
  | none => exact h
  | some w' =>
      have hblocked : p.workers w' = .blocked := hcan
      refine setWorker_exited ?_ h
      rw [hblocked]
      exact fun hc => exited_ne_blocked hc.symm

theorem broadcast_exited {p : Pool n τ} {w : Fin n} (h : p.workers w = .exited) :
    (broadcast p).workers w = .exited := by
  have hwake : (broadcast p).workers w = (p.workers w).wake := rfl
  rw [hwake, h]
  rfl

theorem advanced_exited {p p' : Pool n τ} {d d' : Destroyer} (h : Advanced p d d' p') {w : Fin n}
    (hw : p.workers w = .exited) : p'.workers w = .exited := by
  cases h with
  | stops | joins _ _ _ | returns _ _ => exact hw
  | rouses | goesOn _ => exact broadcast_exited hw

theorem advanced_called {p p' : Pool n τ} {d d' : Destroyer} (h : Advanced p d d' p') :
    d' ≠ .uncalled := by
  cases h with
  | stops | rouses | joins _ _ _ | returns _ _ | goesOn _ => rintro ⟨⟩

/-- Who is gone stays gone. -/
theorem step_exited {s s' : System n τ} {a : Action n τ} (h : step s a = some s') {w : Fin n}
    (hw : s.pool.workers w = .exited) : s'.pool.workers w = .exited := by
  cases step_cases h with
  | refuses _ _ _ => exact hw
  | accepts task woken _ hcan =>
      exact signal_exited (canWake_push hcan task) hw
  | executes w' task pool hready hexecuted =>
      have hnot : s.pool.workers w' ≠ .exited := by
        rw [hready]
        rintro ⟨⟩
      cases hexecuted with
      | blocks _ _ | exits _ | takes _ _ _ _ => exact setWorker_exited hnot hw
  | finishes w' task hworker =>
      refine setWorker_exited ?_ hw
      rw [hworker]
      rintro ⟨⟩
  | wakes w' hworker =>
      refine setWorker_exited ?_ hw
      rw [hworker]
      rintro ⟨⟩
  | destroys destroyer pool _ =>
      rcases step_advanced h with ⟨d, p, hadvanced, heq⟩
      rw [heq]
      exact advanced_exited hadvanced hw

/-- How many sections a worker of a stopped pool is away from being gone. -/
def Worker.distance : Worker τ → Nat
  | .ready => 1
  | .blocked => 2
  | .running _ => 2
  | .exited => 0

def Pool.distance (p : Pool n τ) : Nat :=
  total (fun w => (p.workers w).distance) (List.finRange n)

theorem distance_setWorker (p : Pool n τ) (w : Fin n) (worker : Worker τ) :
    (p.setWorker w worker).distance + (p.workers w).distance = p.distance + worker.distance := by
  have hother : ∀ w', w' ≠ w →
      ((p.setWorker w worker).workers w').distance = (p.workers w').distance := by
    intro w' hne
    rw [setWorker_workers, if_neg hne]
  have hupdate := total_update (List.nodup_finRange n) (List.mem_finRange w) hother
  rw [setWorker_self] at hupdate
  exact hupdate

theorem distance_signal {p : Pool n τ} {woken : Option (Fin n)} (hcan : CanWake p woken) :
    (signal woken p).distance ≤ p.distance := by
  cases woken with
  | none => exact Nat.le_refl _
  | some w =>
      have hblocked : p.workers w = .blocked := hcan
      have hset := distance_setWorker p w .ready
      rw [hblocked] at hset
      simp only [Worker.distance] at hset
      simp only [signal]
      omega

theorem distance_broadcast (p : Pool n τ) : (broadcast p).distance ≤ p.distance := by
  refine total_mono fun w _ => ?_
  have hwake : (broadcast p).workers w = (p.workers w).wake := rfl
  rw [hwake]
  rcases p.workers w with _ | _ | task | _
  · exact Nat.le_refl _
  · exact Nat.le_succ _
  · exact Nat.le_refl _
  · exact Nat.le_refl _

theorem distance_le (p : Pool n τ) : p.distance ≤ 2 * n := by
  have hle : total (fun w => (p.workers w).distance) (List.finRange n)
      ≤ 2 * (List.finRange n).length := by
    refine total_le fun w _ => ?_
    rcases p.workers w with _ | _ | task | _
    all_goals simp only [Worker.distance]; omega
  rw [List.length_finRange] at hle
  exact hle

/-- How many sections the shutdown of `n` workers is away from its return. -/
def Destroyer.distance (n : Nat) : Destroyer → Nat
  | .uncalled => 2 * n + 3
  | .stopped => 2 * n + 2
  | .joining i => 2 * (n - i) + 1
  | .joined i => 2 * (n - i)
  | .returned => 0

/-- How many workers the shutdown of `n` has joined. -/
def Destroyer.joinedUpTo (n : Nat) : Destroyer → Nat
  | .uncalled => 0
  | .stopped => 0
  | .joining i => i
  | .joined i => i + 1
  | .returned => n

/-- The workers the shutdown has joined are gone. -/
structure Tracked (s : System n τ) : Prop where
  roused : Roused s
  bound : s.destroyer.joinedUpTo n ≤ n
  joined : ∀ w : Fin n, w.val < s.destroyer.joinedUpTo n → s.pool.workers w = .exited

/-- The shutdown is under way. -/
structure Closing (s : System n τ) : Prop extends Tracked s where
  called : s.destroyer ≠ .uncalled

/-- A section of the shutdown leaves its first workers joined. -/
theorem advanced_joined {p p' : Pool n τ} {d d' : Destroyer} (h : Advanced p d d' p')
    (hbound : d.joinedUpTo n ≤ n)
    (hjoined : ∀ w : Fin n, w.val < d.joinedUpTo n → p.workers w = .exited) :
    d'.joinedUpTo n ≤ n ∧
      ∀ w : Fin n, w.val < d'.joinedUpTo n → p'.workers w = .exited := by
  cases h with
  | stops | rouses =>
      exact ⟨Nat.zero_le n, fun w hw => absurd hw (Nat.not_lt_zero _)⟩
  | joins i hi hexited =>
      refine ⟨hi, fun w hw => ?_⟩
      -- The last of them is the one that has been joined now.
      rcases Nat.lt_succ_iff_lt_or_eq.mp hw with hlt | heq
      · exact hjoined w hlt
      · have hw' : w = ⟨i, hi⟩ := Fin.ext heq
        rw [hw']
        exact hexited
  | returns i hi =>
      exact ⟨Nat.le_refl n, fun w _ => hjoined w (Nat.lt_of_lt_of_le w.isLt hi)⟩
  | goesOn i => exact ⟨hbound, fun w hw => broadcast_exited (hjoined w hw)⟩

/-- No step but the shutdown's own moves the shutdown. -/
theorem step_destroyer {s s' : System n τ} {a : Action n τ} (h : step s a = some s')
    (ha : a ≠ .destroyThreadpool) : s'.destroyer = s.destroyer := by
  cases step_cases h with
  | refuses _ _ _ | accepts _ _ _ _ | executes _ _ _ _ _ | finishes _ _ _ | wakes _ _ => rfl
  | destroys _ _ _ => exact absurd rfl ha

theorem step_tracked (s : System n τ) (a : Action n τ) (s' : System n τ) (hs : Tracked s)
    (h : step s a = some s') : Tracked s' := by
  have hroused := step_roused s a s' hs.roused h
  by_cases ha : a = .destroyThreadpool
  · subst ha
    rcases step_advanced h with ⟨d, p, hadvanced, rfl⟩
    rcases advanced_joined hadvanced hs.bound hs.joined with ⟨hbound, hjoined⟩
    exact ⟨hroused, hbound, hjoined⟩
  · have hsame := step_destroyer h ha
    refine ⟨hroused, by rw [hsame]; exact hs.bound, fun w hw => ?_⟩
    rw [hsame] at hw
    exact step_exited h (hs.joined w hw)

theorem tracked_start (limit : Int) : Tracked (System.start n τ limit) :=
  ⟨roused_start limit, Nat.zero_le n, fun _ hw => absurd hw (Nat.not_lt_zero _)⟩

/-- A shutdown that has been called stays called. -/
theorem step_called {s s' : System n τ} {a : Action n τ} (hs : s.destroyer ≠ .uncalled)
    (h : step s a = some s') : s'.destroyer ≠ .uncalled := by
  by_cases ha : a = .destroyThreadpool
  · subst ha
    rcases step_advanced h with ⟨d, p, hadvanced, rfl⟩
    exact advanced_called hadvanced
  · rw [step_destroyer h ha]
    exact hs

theorem step_closing (s : System n τ) (a : Action n τ) (s' : System n τ) (hs : Closing s)
    (h : step s a = some s') : Closing s' :=
  ⟨step_tracked s a s' hs.toTracked h, step_called hs.called h⟩

/-- The sections that bring a shutdown nearer to its end: all but those of
    `add_task`. -/
def Action.nearing : Action n τ → Nat
  | .addTask _ _ => 0
  | .executeThread _ => 1
  | .finish _ => 1
  | .spurious _ => 1
  | .destroyThreadpool => 1

/-- How many sections are left of a shutdown. -/
def System.left (s : System n τ) : Nat := s.pool.distance + s.destroyer.distance n

theorem advanced_nearer {p p' : Pool n τ} {d d' : Destroyer} (h : Advanced p d d' p')
    (hbound : d.joinedUpTo n ≤ n) :
    p'.distance + d'.distance n + 1 ≤ p.distance + d.distance n := by
  have hbroadcast := distance_broadcast p
  cases h with
  | stops =>
      have hsame : ({ p with mPoolState := .stopped } : Pool n τ).distance = p.distance := rfl
      simp only [hsame, Destroyer.distance]
      omega
  | rouses =>
      simp only [Destroyer.distance]
      omega
  | joins i hi _ | returns i hi =>
      simp only [Destroyer.distance]
      omega
  | goesOn i =>
      simp only [Destroyer.distance, Destroyer.joinedUpTo] at hbound ⊢
      omega

theorem step_nearer (s : System n τ) (a : Action n τ) (s' : System n τ) (hs : Closing s)
    (h : step s a = some s') : s'.left + a.nearing ≤ s.left := by
  have hstopped := hs.roused.stopped hs.called
  unfold System.left
  cases step_cases h with
  | refuses _ _ _ => exact Nat.le_refl _
  | accepts task woken _ hcan =>
      exact Nat.add_le_add_right (distance_signal (canWake_push hcan task)) _
  | executes w task pool hready hexecuted =>
      cases hexecuted with
      -- A worker that gets the lock of a stopped pool leaves.
      | blocks hrunning _ | takes _ _ hrunning _ => exact absurd hstopped hrunning
      | exits _ =>
          have hset := distance_setWorker s.pool w .exited
          rw [hready] at hset
          simp only [Worker.distance] at hset
          simp only [Action.nearing]
          omega
  | finishes w task hworker =>
      have hset := distance_setWorker s.pool w .ready
      rw [hworker] at hset
      simp only [Worker.distance] at hset
      simp only [Action.nearing]
      omega
  | wakes w hworker =>
      have hset := distance_setWorker s.pool w .ready
      rw [hworker] at hset
      simp only [Worker.distance] at hset
      simp only [Action.nearing]
      omega
  | destroys _ _ _ =>
      rcases step_advanced h with ⟨d, p, hadvanced, heq⟩
      rw [heq]
      exact advanced_nearer hadvanced hs.bound

theorem closing_amortized :
    Amortized step (Closing (n := n) (τ := τ)) System.left (fun _ => 0) Action.nearing :=
  ⟨step_closing, fun s a s' hs h => step_nearer s a s' hs h⟩

/-- The sections that the pool's own threads and the shutdown go through. -/
inductive Own : Action n τ → Prop
  | executeThread (w : Fin n) : Own (.executeThread w)
  | finish (w : Fin n) : Own (.finish w)
  | destroyThreadpool : Own .destroyThreadpool

theorem own_nearing (a : Action n τ) (h : Own a) : 0 = 0 ∧ 0 < a.nearing := by
  cases h with
  | executeThread _ | finish _ | destroyThreadpool => exact ⟨rfl, Nat.one_pos⟩

/-- A shutdown that has not returned is not stuck: what it waits for can come. -/
theorem closing_goes (s : System n τ) (hs : Closing s) (h : s.destroyer ≠ .returned) :
    ∃ a, Own a ∧ (step s a).isSome = true := by
  have hstopped := hs.roused.stopped hs.called
  have hdestroy : (destroyThreadpool s.destroyer s.pool).isSome = true →
      ∃ a, Own a ∧ (step s a).isSome = true := by
    intro hsome
    refine ⟨.destroyThreadpool, .destroyThreadpool, ?_⟩
    rw [step, Option.isSome_map]
    exact hsome
  rcases hd : s.destroyer with _ | _ | i | i | _
  · exact absurd hd hs.called
  · exact hdestroy (by rw [hd]; rfl)
  · by_cases hi : i < n
    · -- The worker that is waited for is gone, or it can go on by itself.
      rcases hworker : s.pool.workers ⟨i, hi⟩ with _ | _ | task | _
      · refine ⟨.executeThread ⟨i, hi⟩, .executeThread _, ?_⟩
        have hwait : ¬ (s.pool.mPoolState ≠ .stopped ∧ s.pool.mTasks.isEmpty = true) :=
          fun hc => hc.1 hstopped
        simp only [step, executeThread, hworker, if_neg hwait, if_pos hstopped]
        rfl
      · exact absurd hworker (hs.roused.roused (by rw [hd]; rfl) _)
      · refine ⟨.finish ⟨i, hi⟩, .finish _, ?_⟩
        simp only [step, finish, hworker]
        rfl
      · refine hdestroy ?_
        simp only [hd, destroyThreadpool, dif_pos hi, hworker]
        rfl
    · refine hdestroy ?_
      simp only [hd, destroyThreadpool, dif_neg hi]
      rfl
  · exact hdestroy (by rw [hd]; rfl)
  · exact absurd hd h

theorem left_le (s : System n τ) (h : s.destroyer ≠ .uncalled) : s.left ≤ 4 * n + 2 := by
  have hpool := distance_le s.pool
  have hdestroyer : s.destroyer.distance n ≤ 2 * n + 2 := by
    rcases hd : s.destroyer with _ | _ | i | i | _
    · exact absurd hd h
    all_goals simp only [Destroyer.distance]; omega
  unfold System.left
  omega

/-- In every run in which the shutdown has been called, whatever happens then,
    at most four sections for every worker and two more are gone through
    besides those of `add_task`; until it returns somebody can go on; what can
    go on by itself leads to its return; and when it has returned all workers
    are gone and stay gone. -/
theorem shutdown_completes (limit : Int) (actions : List (Action n τ)) (s : System n τ)
    (hrun : run step (System.start n τ limit) actions = some s)
    (hcalled : s.destroyer ≠ .uncalled) :
    (∀ more t, run step s more = some t →
      total Action.nearing more ≤ 4 * n + 2 ∧
        (t.destroyer ≠ .returned → ∃ a, Own a ∧ (step t a).isSome = true) ∧
        (t.destroyer = .returned → ∀ w, t.pool.workers w = .exited)) ∧
      ∃ more t, run step s more = some t ∧ t.destroyer = .returned ∧ (∀ a ∈ more, Own a) ∧
        more.length ≤ 4 * n + 2 := by
  have hs : Closing s :=
    ⟨run_invariant step Tracked step_tracked _ s actions (tracked_start limit) hrun, hcalled⟩
  have hleft := left_le s hcalled
  constructor
  · intro more t hmore
    have ht := run_invariant step Closing step_closing s t more hs hmore
    refine ⟨?_, closing_goes t ht, fun hreturned w => ?_⟩
    · have hspent := amortized_run closing_amortized hs hmore
      have hnone : total (fun _ => 0) more = 0 :=
        Nat.le_zero.mp ((total_le fun _ _ => Nat.le_refl 0).trans (Nat.zero_mul _).le)
      omega
    · refine ht.joined w ?_
      rw [hreturned]
      exact w.isLt
  · rcases amortized_finishes closing_amortized own_nearing closing_goes hs with
      ⟨more, t, hmore, hreturned, _, hown, hlength⟩
    exact ⟨more, t, hmore, hreturned, hown, hlength.trans hleft⟩

/-- Two workers, one of which is asleep and the other at work, a task that is
    left in the queue, and a spurious wake-up before the first broadcast. -/
theorem shutdown_completes_sample :
    ∃ s, run step (System.start 2 Nat 0)
        [.executeThread 0, .addTask 7 (some 0), .executeThread 1, .executeThread 0, .addTask 8 (some 0),
          .destroyThreadpool, .addTask 9 none] = some s ∧
      ∃ more t, run step s more = some t ∧ t.destroyer = .returned ∧ (∀ a ∈ more, Own a) ∧
        more.length ≤ 4 * 2 + 2 := by
  have hparts : (run step (System.start 2 Nat 0)
      [.executeThread 0, .addTask 7 (some 0), .executeThread 1, .executeThread 0, .addTask 8 (some 0),
        .destroyThreadpool, .addTask 9 none]).map System.destroyer = some .stopped := by
    decide +kernel
  rcases Option.map_eq_some_iff.mp hparts with ⟨s, hrun, hdestroyer⟩
  refine ⟨s, hrun, (shutdown_completes 0 _ s hrun ?_).2⟩
  rw [hdestroyer]
  rintro ⟨⟩

/-- The pool with the flag of its mutex, and who is inside `pthread_cond_wait`:
    blocked, or woken and not yet back. -/
structure Mutexed (n : Nat) (τ : Type) where
  system : System n τ
  isLocked : Bool
  waiting : Fin n → Bool

def Mutexed.start (n : Nat) (τ : Type) (limit : Int) : Mutexed n τ :=
  { system := System.start n τ limit, isLocked := false, waiting := fun _ => false }

def stepMutexed (m : Mutexed n τ) (a : Action n τ) : Option (Mutexed n τ) :=
  (step m.system a).map fun system =>
    match a with
    | .addTask _ _ => { m with system, isLocked := false }
    | .executeThread w =>
      if system.pool.workers w = .blocked then
        -- A worker that waits again has not called `lock` again.
        { system
          isLocked := if m.waiting w then m.isLocked else true
          waiting := Function.update m.waiting w true }
      else { system, isLocked := false, waiting := Function.update m.waiting w false }
    | .finish _ => { m with system }
    | .spurious _ => { m with system }
    | .destroyThreadpool =>
      -- Only its first section takes the lock.
      if m.system.destroyer = .uncalled then { m with system, isLocked := false }
      else { m with system }

/-- If the flag is set somebody waits, and the pool is not stopped. -/
structure Flagged (m : Mutexed n τ) : Prop where
  roused : Roused m.system
  waits : m.isLocked = true → m.system.pool.mPoolState ≠ .stopped ∧ ∃ w, m.waiting w = true
  asleep : ∀ w, m.waiting w = true →
    m.system.pool.workers w = .ready ∨ m.system.pool.workers w = .blocked

/-- Who waits goes on waiting while the others do something. -/
theorem asleep_setWorker {p : Pool n τ} {waiting : Fin n → Bool} {w : Fin n} {worker : Worker τ}
    (h : ∀ w, waiting w = true → p.workers w = .ready ∨ p.workers w = .blocked)
    (hworker : waiting w = true → worker = .ready ∨ worker = .blocked) (w' : Fin n)
    (hw' : waiting w' = true) :
    (p.setWorker w worker).workers w' = .ready ∨ (p.setWorker w worker).workers w' = .blocked := by
  rw [setWorker_workers]
  by_cases heq : w' = w
  · subst heq
    rw [if_pos rfl]
    exact hworker hw'
  · rw [if_neg heq]
    exact h w' hw'

theorem asleep_signal {p : Pool n τ} {waiting : Fin n → Bool} {woken : Option (Fin n)}
    (h : ∀ w, waiting w = true → p.workers w = .ready ∨ p.workers w = .blocked) (w : Fin n)
    (hw : waiting w = true) :
    (signal woken p).workers w = .ready ∨ (signal woken p).workers w = .blocked := by
  cases woken with
  | none => exact h w hw
  | some w' => exact asleep_setWorker h (fun _ => Or.inl rfl) w hw

theorem asleep_broadcast {p : Pool n τ} {waiting : Fin n → Bool}
    (h : ∀ w, waiting w = true → p.workers w = .ready ∨ p.workers w = .blocked) (w : Fin n)
    (hw : waiting w = true) :
    (broadcast p).workers w = .ready ∨ (broadcast p).workers w = .blocked := by
  have hwake : (broadcast p).workers w = (p.workers w).wake := rfl
  left
  rw [hwake]
  rcases h w hw with hready | hblocked
  · rw [hready]
    rfl
  · rw [hblocked]
    rfl

theorem asleep_update {p : Pool n τ} {waiting : Fin n → Bool} {w : Fin n} {worker : Worker τ}
    {waits : Bool} (h : ∀ w, waiting w = true → p.workers w = .ready ∨ p.workers w = .blocked)
    (hworker : waits = true → worker = .blocked) (w' : Fin n)
    (hw' : Function.update waiting w waits w' = true) :
    (p.setWorker w worker).workers w' = .ready ∨ (p.setWorker w worker).workers w' = .blocked := by
  rw [setWorker_workers]
  by_cases heq : w' = w
  · subst heq
    rw [Function.update_self] at hw'
    rw [if_pos rfl]
    exact Or.inr (hworker hw')
  · rw [Function.update_of_ne heq] at hw'
    rw [if_neg heq]
    exact h w' hw'

theorem step_flagged (m : Mutexed n τ) (a : Action n τ) (m' : Mutexed n τ) (hm : Flagged m)
    (h : stepMutexed m a = some m') : Flagged m' := by
  rw [stepMutexed, Option.map_eq_some_iff] at h
  rcases h with ⟨s', hstep, rfl⟩
  have hroused := step_roused m.system a s' hm.roused hstep
  have hclear : ∀ {b : Bool} {P : Prop}, b = false → b = true → P := by
    intro b P hb hb'
    rw [hb] at hb'
    exact Bool.noConfusion hb'
  cases step_cases hstep with
  | refuses task woken _ => exact ⟨hroused, hclear rfl, hm.asleep⟩
  | accepts task woken _ _ => exact ⟨hroused, hclear rfl, asleep_signal hm.asleep⟩
  | executes w task pool hready hexecuted =>
      cases hexecuted with
      | blocks hrunning _ =>
          simp only [setWorker_self, if_pos]
          refine ⟨hroused, fun _ => ⟨hrunning, w, Function.update_self _ _ _⟩, ?_⟩
          exact asleep_update hm.asleep fun _ => rfl
      | exits _ =>
          simp only [setWorker_self, if_neg exited_ne_blocked]
          exact ⟨hroused, hclear rfl, asleep_update hm.asleep Bool.noConfusion⟩
      | takes task rest _ _ =>
          simp only [setWorker_self, if_neg (running_ne_blocked task)]
          exact ⟨hroused, hclear rfl, asleep_update hm.asleep Bool.noConfusion⟩
  | finishes w _ _ | wakes w _ =>
      exact ⟨hroused, hm.waits, asleep_setWorker hm.asleep fun _ => Or.inl rfl⟩
  | destroys destroyer pool hdestroyed =>
      cases hdestroyed with
      | stops huncalled =>
          simp only [if_pos huncalled]
          exact ⟨hroused, hclear rfl, hm.asleep⟩
      | broadcasts _ hd _ =>
          have hcalled : m.system.destroyer ≠ .uncalled := by
            rcases hd with hstopped | hb
            · rw [hstopped]
              rintro ⟨⟩
            · exact broadcasted_called hb
          simp only [if_neg hcalled]
          exact ⟨hroused, hm.waits, asleep_broadcast hm.asleep⟩
      | goesOn _ hd _ =>
          simp only [if_neg (broadcasted_called hd)]
          exact ⟨hroused, hm.waits, hm.asleep⟩

/-- The flag is only a matter of what the steps of the pool do to it. -/
theorem stepMutexed_system {m m' : Mutexed n τ} {a : Action n τ} (h : stepMutexed m a = some m') :
    step m.system a = some m'.system := by
  rw [stepMutexed, Option.map_eq_some_iff] at h
  rcases h with ⟨s', hstep, rfl⟩
  rw [hstep, Option.some.injEq]
  cases a with
  | addTask _ _ | finish _ | spurious _ => rfl
  | executeThread w =>
      by_cases hblocked : s'.pool.workers w = .blocked
      · simp only [if_pos hblocked]
      · simp only [if_neg hblocked]
  | destroyThreadpool =>
      by_cases huncalled : m.system.destroyer = .uncalled
      · simp only [if_pos huncalled]
      · simp only [if_neg huncalled]

theorem flagged_start (limit : Int) : Flagged (Mutexed.start n τ limit) :=
  ⟨roused_start limit, Bool.noConfusion, fun _ => Bool.noConfusion⟩

/-- In every run, wherever no section is being gone through, the flag of the
    mutex is set only while somebody waits for a pool that is not stopped; and
    once the shutdown has been called it is clear for good, so that the
    destructor of the mutex does not spin. -/
theorem isLocked_cleared (limit : Int) (actions : List (Action n τ)) (m : Mutexed n τ)
    (hrun : run stepMutexed (Mutexed.start n τ limit) actions = some m) :
    (m.isLocked = true → m.system.pool.mPoolState ≠ .stopped ∧ ∃ w, m.waiting w = true ∧
      (m.system.pool.workers w = .ready ∨ m.system.pool.workers w = .blocked)) ∧
      (m.system.destroyer ≠ .uncalled →
        ∀ more t, run stepMutexed m more = some t → t.isLocked = false) := by
  have hm := run_invariant stepMutexed Flagged step_flagged _ m actions (flagged_start limit) hrun
  constructor
  · intro hlocked
    rcases hm.waits hlocked with ⟨hrunning, w, hw⟩
    exact ⟨hrunning, w, hw, hm.asleep w hw⟩
  · intro hcalled more t hmore
    have ht := run_invariant stepMutexed (fun u => Flagged u ∧ u.system.destroyer ≠ .uncalled)
      (fun u a u' hu h => by
        refine ⟨step_flagged u a u' hu.1 h, ?_⟩
        exact step_called hu.2 (stepMutexed_system h)) m t more ⟨hm, hcalled⟩ hmore
    rw [← Bool.not_eq_true]
    intro hlocked
    exact (ht.1.waits hlocked).1 (ht.1.roused.stopped ht.2)

/-- A worker that finds nothing to do leaves the flag behind, set. -/
theorem isLocked_cleared_sample :
    ∃ m, run stepMutexed (Mutexed.start 2 Nat 0) [.executeThread 0] = some m ∧
      m.isLocked = true ∧ ∃ w, m.waiting w = true ∧
        (m.system.pool.workers w = .ready ∨ m.system.pool.workers w = .blocked) := by
  have hparts : (run stepMutexed (Mutexed.start 2 Nat 0) [.executeThread 0]).map
      Mutexed.isLocked = some true := by decide +kernel
  rcases Option.map_eq_some_iff.mp hparts with ⟨m, hrun, hlocked⟩
  exact ⟨m, hrun, hlocked, ((isLocked_cleared 0 _ m hrun).1 hlocked).2⟩

end ThreadPool

end ZeusOS
