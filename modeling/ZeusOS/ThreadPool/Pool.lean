import Mathlib.Logic.Function.Basic
import ZeusOS.Foundation.Words

/-!
# The Thread Pool

`ThreadPool.cpp`: a queue of tasks, workers that take them, and the shutdown.

What happens between a lock and the next unlock happens in one step, and a wait
gives the lock back and blocks in that same step. So a worker is seen in one of
four places: about to take the lock, which is also where it is once it has been
woken; blocked on the condition variable; running a task it has taken; or gone.
A worker that was woken tests the loop's condition anew, so the part of
`execute_thread` from there on is the part from the top.

The condition variable is who is blocked on it. A signal wakes one blocked
worker, if there is one, and which one is not for the pool to say; a broadcast
wakes all of them; and any of them may wake up for no reason.

Tasks are any type. What the model adds to the pool is the history: the calls
of `add_task` with what they returned, and the tasks in the order in which they
were taken.

## Main definitions

* `Worker`, `PoolState`, `Pool`: The pool.
* `signal`, `broadcast`: The condition variable.
* `addTask`, `executeThread`, `finish`: The sections of the code.
* `Destroyer`: Where `destroy_threadpool` stands.
* `System`, `Action`, `step`: The pool with its history.
-/

namespace ZeusOS

namespace ThreadPool

open Foundation.Words

/-- Where a worker stands. -/
inductive Worker (τ : Type) where
  | ready
  | blocked
  | running (task : τ)
  | exited
  deriving DecidableEq, Repr

/-- `m_pool_state`: minus one at first, then `STARTED`, then `STOPPED`. -/
inductive PoolState where
  | initial
  | started
  | stopped
  deriving DecidableEq, Repr

/-- The pool, with `n` threads running. -/
structure Pool (n : Nat) (τ : Type) where
  mTasks : List τ
  mPoolState : PoolState
  mTaskSizeLimit : Int
  workers : Fin n → Worker τ

variable {n : Nat} {τ : Type}

def Pool.setWorker (p : Pool n τ) (w : Fin n) (worker : Worker τ) : Pool n τ :=
  { p with workers := Function.update p.workers w worker }

@[simp] theorem setWorker_mTasks (p : Pool n τ) (w : Fin n) (worker : Worker τ) :
    (p.setWorker w worker).mTasks = p.mTasks := rfl

@[simp] theorem setWorker_self (p : Pool n τ) (w : Fin n) (worker : Worker τ) :
    (p.setWorker w worker).workers w = worker := Function.update_self _ _ _

/-- Whether a signal can wake this worker, or nobody. -/
def CanWake (p : Pool n τ) : Option (Fin n) → Prop
  | some w => p.workers w = .blocked
  | none => ∀ w, p.workers w ≠ .blocked

theorem ready_ne_blocked : (.ready : Worker τ) ≠ .blocked := by
  rintro ⟨⟩

theorem running_ne_blocked (task : τ) : (.running task : Worker τ) ≠ .blocked := by
  rintro ⟨⟩

theorem exited_ne_blocked : (.exited : Worker τ) ≠ .blocked := by
  rintro ⟨⟩

/-- Whether a worker is blocked can be seen without comparing tasks. -/
instance decidableBlocked : (worker : Worker τ) → Decidable (worker = .blocked)
  | .blocked => .isTrue rfl
  | .ready => .isFalse ready_ne_blocked
  | .running task => .isFalse (running_ne_blocked task)
  | .exited => .isFalse exited_ne_blocked

instance decidableCanWake (p : Pool n τ) :
    (woken : Option (Fin n)) → Decidable (CanWake p woken)
  | some w => inferInstanceAs (Decidable (p.workers w = .blocked))
  | none => inferInstanceAs (Decidable (∀ w, p.workers w ≠ .blocked))

/-- `pthread_cond_signal`, which wakes this worker, or nobody. -/
def signal (woken : Option (Fin n)) (p : Pool n τ) : Pool n τ :=
  match woken with
  | some w => p.setWorker w .ready
  | none => p

@[simp] theorem signal_mTasks (woken : Option (Fin n)) (p : Pool n τ) :
    (signal woken p).mTasks = p.mTasks := by
  cases woken <;> rfl

@[simp] theorem signal_mPoolState (woken : Option (Fin n)) (p : Pool n τ) :
    (signal woken p).mPoolState = p.mPoolState := by
  cases woken <;> rfl

@[simp] theorem signal_mTaskSizeLimit (woken : Option (Fin n)) (p : Pool n τ) :
    (signal woken p).mTaskSizeLimit = p.mTaskSizeLimit := by
  cases woken <;> rfl

/-- A worker that is blocked is so no longer. -/
def Worker.wake : Worker τ → Worker τ
  | .blocked => .ready
  | worker => worker

/-- `pthread_cond_broadcast`. -/
def broadcast (p : Pool n τ) : Pool n τ := { p with workers := fun w => (p.workers w).wake }

theorem wake_ne_blocked (worker : Worker τ) : worker.wake ≠ .blocked := by
  cases worker with
  | ready | blocked => exact ready_ne_blocked
  | running task => exact running_ne_blocked task
  | exited => exact exited_ne_blocked

/-- Whether `add_task` finds the queue full. -/
def Pool.full (p : Pool n τ) : Prop :=
  p.mTaskSizeLimit > 0 ∧ toInt (UInt32.ofNat p.mTasks.length) > p.mTaskSizeLimit

instance (p : Pool n τ) : Decidable p.full := inferInstanceAs (Decidable (_ ∧ _))

/-- `add_task`, with the worker its signal wakes. -/
def addTask (task : τ) (woken : Option (Fin n)) (p : Pool n τ) : Int32 × Pool n τ :=
  if p.full then (-1, p) else (0, signal woken { p with mTasks := p.mTasks ++ [task] })

/-- The section of `execute_thread`, for a worker that gets the lock: it waits,
    leaves, or takes a task. -/
def executeThread (w : Fin n) (p : Pool n τ) : Option (Option τ × Pool n τ) :=
  match p.workers w with
  | .ready =>
    if p.mPoolState ≠ .stopped ∧ p.mTasks.isEmpty then some (none, p.setWorker w .blocked)
    else if p.mPoolState = .stopped then some (none, p.setWorker w .exited)
    else match p.mTasks with
      | [] => none
      | task :: rest => some (some task, ({ p with mTasks := rest }).setWorker w (.running task))
  | _ => none

/-- `task->run()` and `delete task`, which need no lock. -/
def finish (w : Fin n) (p : Pool n τ) : Option (Pool n τ) :=
  match p.workers w with
  | .running _ => some (p.setWorker w .ready)
  | _ => none

/-- A wake-up without a signal. -/
def spurious (w : Fin n) (p : Pool n τ) : Option (Pool n τ) :=
  match p.workers w with
  | .blocked => some (p.setWorker w .ready)
  | _ => none

/-- Where `destroy_threadpool` stands: not called; the state is set and the lock
    given back; in the loop, about to join the worker of that number; joined,
    about to broadcast again; returned. -/
inductive Destroyer where
  | uncalled
  | stopped
  | joining (i : Nat)
  | joined (i : Nat)
  | returned
  deriving DecidableEq, Repr

/-- The next section of `destroy_threadpool`. -/
def destroyThreadpool : Destroyer → Pool n τ → Option (Destroyer × Pool n τ)
  | .uncalled, p => some (.stopped, { p with mPoolState := .stopped })
  | .stopped, p => some (.joining 0, broadcast p)
  | .joining i, p =>
    if h : i < n then
      -- `pthread_join` waits for the worker to be gone.
      match p.workers ⟨i, h⟩ with
      | .exited => some (.joined i, p)
      | _ => none
    else some (.returned, p)
  | .joined i, p => some (.joining (i + 1), broadcast p)
  | .returned, _ => none

/-- The pool, the shutdown, and the history. -/
structure System (n : Nat) (τ : Type) where
  pool : Pool n τ
  destroyer : Destroyer
  calls : List (τ × Int32)
  taken : List τ

/-- A started pool with this limit, before anything has happened. -/
def System.start (n : Nat) (τ : Type) (limit : Int) : System n τ :=
  { pool :=
      { mTasks := [], mPoolState := .started, mTaskSizeLimit := limit, workers := fun _ => .ready }
    destroyer := .uncalled
    calls := []
    taken := [] }

/-- What can happen next. -/
inductive Action (n : Nat) (τ : Type) where
  | addTask (task : τ) (woken : Option (Fin n))
  | executeThread (w : Fin n)
  | finish (w : Fin n)
  | spurious (w : Fin n)
  | destroyThreadpool

def step (s : System n τ) : Action n τ → Option (System n τ)
  | .addTask task woken =>
    -- Whom the signal wakes matters only if it gets that far.
    if s.pool.full ∨ CanWake s.pool woken then
      some { s with
        pool := (addTask task woken s.pool).2
        calls := s.calls ++ [(task, (addTask task woken s.pool).1)] }
    else none
  | .executeThread w =>
    (executeThread w s.pool).map fun (task, pool) =>
      { s with pool, taken := s.taken ++ task.toList }
  | .finish w => (finish w s.pool).map fun pool => { s with pool }
  | .spurious w => (spurious w s.pool).map fun pool => { s with pool }
  | .destroyThreadpool =>
    (destroyThreadpool s.destroyer s.pool).map fun (destroyer, pool) => { s with destroyer, pool }

end ThreadPool

end ZeusOS
