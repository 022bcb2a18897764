import ZeusOS.Foundation.Runs
import ZeusOS.ThreadPool.Pool

/-!
# The Threads of the Pool

`set_pool_size`, `start`, `destroy_threadpool` and the destructor, as far as
they keep the threads.

There are two counts of them. `m_threads` has an entry for every thread that
was created, and keeps it when the thread has been joined; `m_pool_size` is
whatever was last set. The loop that joins counts to the one and indexes the
other, from the front. So it joins the right threads when the size is the
number of threads that were created since the pool was last stopped, and those
threads are the first in the vector: there were none before them, or there are
none of them, or `pthread_create` has given them the numbers of the first ones
again, which it may when those are gone.

Every other case is one of too many or of the wrong ones. A pool that never
started, or of which not all threads could be created, or that was made larger
meanwhile, is joined behind the end of the vector; one that was made smaller
leaves threads behind; and one that was started again joins the threads of the
first time once more.

A thread is its number, of any type, and `create` is what `pthread_create` says
in each round of the loop. Beside the fields there is the history: the threads
created since the last `destroy_threadpool`. That every thread is joined once,
and the first time it can be, is that every `destroy_threadpool` joins just
these.

## Main definitions

* `Threads`: The fields that keep the threads.
* `createThreads`, `start`, `setPoolSize`: The threads that come.
* `joinThreads`, `destroyThreadpool`, `destructor`: The threads that go.
* `Tally`, `Call`, `Event`, `happen`: The fields with the history, and the
  calls.
* `life`: The calls of a pool's life, and its end.
* `Joins`: The threads joined are those created since the last time.
* `Fits`: The size and the vector are as the loop needs them.

## Theorems

* `joinThreads_eq`: What the loop joins, and when it indexes too far.
* `destroyed_iff`: One shutdown.
* `happen_kept`: What a call keeps.
* `fitting_iff_of_nodup`: The shutdown where no number comes twice.
* `joined_once_iff`: The life of a pool.
-/

namespace ZeusOS

namespace ThreadPool

open Foundation.Runs

variable {ι : Type}

/-- The fields of a pool that keep its threads. -/
structure Threads (ι : Type) where
  mPoolSize : Int32
  mPoolState : PoolState
  mThreads : List ι
  deriving DecidableEq, Repr

/-- `ThreadPool::ThreadPool`. -/
def Threads.new : Threads ι := { mPoolSize := 0, mPoolState := .initial, mThreads := [] }

/-- `set_pool_size`. -/
def setPoolSize (poolSize : Int32) (t : Threads ι) : Threads ι := { t with mPoolSize := poolSize }

/-- How often a loop up to `m_pool_size` goes round. -/
def Threads.rounds (t : Threads ι) : Nat := t.mPoolSize.toNatClampNeg

/-- The loop of `start`, from round `i` on: what it returns, and the threads it
    pushes back. -/
def createThreads (create : Nat → Option ι) : Nat → Nat → Int32 × List ι
  | _, 0 => (0, [])
  | i, count + 1 =>
    match create i with
    | none => (-1, [])
    | some tid =>
      let (ret, tids) := createThreads create (i + 1) count
      (ret, tid :: tids)

/-- `start`. -/
def start (create : Nat → Option ι) (t : Threads ι) : Int32 × Threads ι :=
  if t.mPoolSize = 0 then (-1, t)
  else if t.mPoolState = .started then (0, t)
  else
    let (ret, tids) := createThreads create 0 t.rounds
    (ret, { t with mPoolState := .started, mThreads := t.mThreads ++ tids })

/-- The loop of `destroy_threadpool`, from round `i` on: the threads it joins.
    To index the vector behind its end is a fault. -/
def joinThreads (mThreads : List ι) : Nat → Nat → Option (List ι)
  | _, 0 => some []
  | i, count + 1 =>
    mThreads[i]?.bind fun tid => (joinThreads mThreads (i + 1) count).map fun tids => tid :: tids

/-- `destroy_threadpool`, with the threads it joins. It returns zero in any
    case. -/
def Threads.destroyThreadpool (t : Threads ι) : Option (List ι × Threads ι) :=
  (joinThreads t.mThreads 0 t.rounds).map fun joined => (joined, { t with mPoolState := .stopped })

/-- `ThreadPool::~ThreadPool`. -/
def Threads.destructor (t : Threads ι) : Option (List ι × Threads ι) :=
  if t.mPoolState ≠ .stopped then t.destroyThreadpool else some ([], t)

/-- The loop joins as many threads as it goes round, from where it is, if there
    are so many. -/
theorem joinThreads_eq (mThreads : List ι) (i count : Nat) (h : i ≤ mThreads.length) :
    joinThreads mThreads i count =
      if i + count ≤ mThreads.length then some ((mThreads.drop i).take count) else none := by
  induction count generalizing i with
  | zero => rw [joinThreads, if_pos (by omega), List.take_zero]
  | succ count ih =>
      unfold joinThreads
      by_cases hi : i < mThreads.length
      · rw [List.getElem?_eq_getElem hi, Option.bind_some, ih (i + 1) hi]
        by_cases hcount : i + 1 + count ≤ mThreads.length
        · rw [if_pos hcount, if_pos (by omega), Option.map_some, List.drop_eq_getElem_cons hi,
            List.take_succ_cons]
        · rw [if_neg hcount, if_neg (by omega), Option.map_none]
      · rw [List.getElem?_eq_none (by omega), Option.bind_none, if_neg (by omega)]

/-- The fields, and the threads created since the last `destroy_threadpool`. -/
structure Tally (ι : Type) where
  threads : Threads ι
  since : List ι

/-- The calls of a pool. -/
inductive Call (ι : Type) where
  | setPoolSize (poolSize : Int32)
  | start (create : Nat → Option ι)
  | destroyThreadpool

/-- What happens to a pool. -/
inductive Event (ι : Type) where
  | call (call : Call ι)
  | destructor

/-- The life of a pool: some calls, and the destructor. -/
def life (calls : List (Call ι)) : List (Event ι) := calls.map .call ++ [.destructor]

def Tally.new : Tally ι := { threads := .new, since := [] }

def happen (s : Tally ι) : Event ι → Option (Tally ι)
  | .call (.setPoolSize poolSize) => some { s with threads := setPoolSize poolSize s.threads }
  | .call (.start create) =>
    let threads := (start create s.threads).2
    some { threads, since := s.since ++ threads.mThreads.drop s.threads.mThreads.length }
  | .call .destroyThreadpool =>
    s.threads.destroyThreadpool.map fun (_, threads) => { threads, since := [] }
  | .destructor => s.threads.destructor.map fun (_, threads) => { threads, since := [] }

/-- The shutdown stays inside the vector, and joins the threads created since
    the last one, each once, and no others. -/
def JoinsSince (s : Tally ι) (destroyed : Option (List ι × Threads ι)) : Prop :=
  ∃ joined threads, destroyed = some (joined, threads) ∧ joined.Perm s.since

/-- A shutdown, if this is one, joins what it should. -/
def Joins (s : Tally ι) : Event ι → Prop
  | .call .destroyThreadpool => JoinsSince s s.threads.destroyThreadpool
  | .destructor => JoinsSince s s.threads.destructor
  | .call (.setPoolSize _) | .call (.start _) => True

/-- The size is the number of threads created since the last shutdown, and they
    are none, or all there ever were, or have the numbers of the first ones. -/
def Tally.Fitting (s : Tally ι) : Prop :=
  s.threads.rounds = s.since.length ∧
    (s.since = [] ∨ s.since = s.threads.mThreads ∨
      (s.threads.mThreads.take s.since.length).Perm s.since)

/-- A shutdown that joins, if this is one, finds a size that fits. -/
def Fits (s : Tally ι) : Event ι → Prop
  | .call .destroyThreadpool => s.Fitting
  | .destructor => s.threads.mPoolState ≠ .stopped → s.Fitting
  | .call (.setPoolSize _) | .call (.start _) => True

instance decidableFits [DecidableEq ι] (s : Tally ι) : (e : Event ι) → Decidable (Fits s e)
  | .call .destroyThreadpool => inferInstanceAs (Decidable (_ ∧ _))
  | .destructor => inferInstanceAs (Decidable (_ → _ ∧ _))
  | .call (.setPoolSize _) | .call (.start _) => .isTrue trivial

/-- A shutdown joins what it should exactly when the size fits. -/
theorem destroyed_iff (s : Tally ι) : JoinsSince s s.threads.destroyThreadpool ↔ s.Fitting := by
  unfold JoinsSince Threads.destroyThreadpool
  rw [joinThreads_eq _ _ _ (Nat.zero_le _), Nat.zero_add, List.drop_zero]
  constructor
  · rintro ⟨joined, threads, heq, hperm⟩
    by_cases hrounds : s.threads.rounds ≤ s.threads.mThreads.length
    · rw [if_pos hrounds, Option.map_some, Option.some.injEq, Prod.mk.injEq] at heq
      have hlen := hperm.length_eq
      rw [← heq.1, List.length_take, Nat.min_eq_left hrounds] at hlen
      refine ⟨hlen, Or.inr (Or.inr ?_)⟩
      rw [← hlen, heq.1]
      exact hperm
    · rw [if_neg hrounds, Option.map_none] at heq
      exact absurd heq (by simp only [reduceCtorEq, not_false_eq_true])
  · rintro ⟨hrounds, hfirst⟩
    have hperm : (s.threads.mThreads.take s.since.length).Perm s.since := by
      rcases hfirst with hnone | hall | hperm
      · rw [hnone, List.length_nil, List.take_zero]
      · rw [← hall, List.take_length]
      · exact hperm
    have hlen := hperm.length_eq
    rw [List.length_take] at hlen
    rw [if_pos (by omega), hrounds]
    exact ⟨_, _, rfl, hperm⟩

/-- What the calls keep: the threads created since the last shutdown are the
    last in the vector, and a pool that is stopped has none. -/
structure Kept (s : Tally ι) : Prop where
  suffix : s.since <:+ s.threads.mThreads
  stopped : s.threads.mPoolState = .stopped → s.since = []

theorem kept_of_none {t : Threads ι} : Kept { threads := t, since := [] } :=
  ⟨List.nil_suffix, fun _ => rfl⟩

theorem happen_kept (s : Tally ι) (e : Event ι) (s' : Tally ι) (hs : Kept s)
    (h : happen s e = some s') : Kept s' := by
  cases e with
  | call call =>
      cases call with
      | setPoolSize poolSize =>
          rw [← Option.some.inj h]
          exact ⟨hs.suffix, hs.stopped⟩
      | start create =>
          rw [← Option.some.inj h]
          unfold start
          by_cases hsize : s.threads.mPoolSize = 0
          · simp only [if_pos hsize, List.drop_length, List.append_nil]
            exact ⟨hs.suffix, hs.stopped⟩
          by_cases hstarted : s.threads.mPoolState = .started
          · simp only [if_neg hsize, if_pos hstarted, List.drop_length, List.append_nil]
            exact ⟨hs.suffix, hs.stopped⟩
          · simp only [if_neg hsize, if_neg hstarted, List.drop_left]
            refine ⟨?_, fun hstopped => PoolState.noConfusion hstopped⟩
            rcases hs.suffix with ⟨old, hold⟩
            exact ⟨old, by rw [← List.append_assoc, hold]⟩
      | destroyThreadpool =>
          simp only [happen, Option.map_eq_some_iff] at h
          rcases h with ⟨_, _, rfl⟩
          exact kept_of_none
  | destructor =>
      simp only [happen, Option.map_eq_some_iff] at h
      rcases h with ⟨_, _, rfl⟩
      exact kept_of_none

/-- Where no number comes twice, the size must be that of the threads created
    since the last shutdown, and there must be none of these or no others. -/
theorem fitting_iff_of_nodup {s : Tally ι} (hs : Kept s) (hnodup : s.threads.mThreads.Nodup) :
    s.Fitting ↔ s.threads.rounds = s.since.length ∧
      (s.since = [] ∨ s.since = s.threads.mThreads) := by
  constructor
  · rintro ⟨hrounds, hnone | hall | hperm⟩
    · exact ⟨hrounds, Or.inl hnone⟩
    · exact ⟨hrounds, Or.inr hall⟩
    · refine ⟨hrounds, ?_⟩
      rcases hs.suffix with ⟨old, hold⟩
      rw [← hold] at hperm hnodup ⊢
      cases old with
      | nil => exact Or.inr rfl
      | cons tid old =>
          -- The first number of all is not one of the later ones.
          left
          by_contra hne
          have hmem : tid ∈ s.since := by
            rw [← hperm.mem_iff, ← Nat.succ_pred_eq_of_pos (List.length_pos_iff.mpr hne)]
            simp only [List.cons_append, List.take_succ_cons, List.mem_cons, true_or]
          rw [List.cons_append, List.nodup_cons] at hnodup
          exact hnodup.1 (List.mem_append_right _ hmem)
  · rintro ⟨hrounds, hnone | hall⟩
    · exact ⟨hrounds, Or.inl hnone⟩
    · exact ⟨hrounds, Or.inr (Or.inl hall)⟩

/-- In every life of a pool, the shutdowns stay inside the vector and every
    thread is joined once, by the first shutdown after it was created, exactly
    when every shutdown that joins finds a size that fits. -/
theorem joined_once_iff (calls : List (Call ι)) :
    Along happen Joins Tally.new (life calls) ↔ Along happen Fits Tally.new (life calls) := by
  refine along_congr fun before e after s _ hrun => ?_
  have hs := run_invariant happen Kept happen_kept Tally.new s before kept_of_none hrun
  cases e with
  | call call =>
      cases call with
      | setPoolSize poolSize | start create => exact Iff.rfl
      | destroyThreadpool => exact destroyed_iff s
  | destructor =>
      unfold Joins Fits Threads.destructor
      by_cases hstopped : s.threads.mPoolState = .stopped
      · -- Nothing is joined, and there is nothing to join.
        rw [if_neg (not_not.mpr hstopped)]
        exact ⟨fun _ hne => absurd hstopped hne,
          fun _ => ⟨_, _, rfl, by rw [hs.stopped hstopped]⟩⟩
      · rw [if_pos hstopped, destroyed_iff]
        exact ⟨fun h _ => h, fun h => h hstopped⟩

-- Two threads, and a pool of two; then two threads more, with numbers of their own.
example : Along happen Fits Tally.new (life [.setPoolSize 2, .start some]) ∧
    ¬ Along happen Fits Tally.new (life [.setPoolSize 2, .start some, .destroyThreadpool,
      .start fun i => some (i + 2)]) := by decide +kernel

/-- A pool that is given a size but never started is joined behind the end of
    its vector. -/
theorem unstarted_joined : ¬ Along happen Joins (Tally.new : Tally Nat) (life [.setPoolSize 2]) := by
  intro h
  have hnone : ({ mPoolSize := 2, mPoolState := .initial, mThreads := [] } : Threads Nat).destructor
      = none := by decide
  rcases h [.call (.setPoolSize 2)] .destructor [] _ rfl rfl with ⟨joined, threads, heq, _⟩
  exact absurd (heq.symm.trans hnone) (by simp only [reduceCtorEq, not_false_eq_true])

end ThreadPool

end ZeusOS
