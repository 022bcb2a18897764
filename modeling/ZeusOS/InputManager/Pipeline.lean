import ZeusOS.InputManager.Dispatch
import ZeusOS.ThreadPool.Drain

/-!
# Everything Read is Dispatched

What becomes of the events once they have been read: whether they get to the
listeners at all, how much the threads do for it, and whether the memory for
their copies is given back.

An event that has been read is copied, queued, taken by the worker and
dispatched, and the worker may have to be woken up for it. So it is good for
five steps at most. Between two reads nothing else is done, and as long as
anything is on its way somebody can go on: a worker that sleeps does so over an
empty queue, and then it is the reader's turn, which finds memory because none
is taken. So the threads come to rest, with everything dispatched and every copy
freed, however they have taken turns until then. A dispatch is one step: what is
written to a listener's socket is taken, and nobody waits there.

## Main definitions

* `Server.load`: The steps that are due.
* `Own`: The steps the threads take by themselves.
* `Flowing`: Nobody is stuck, and nothing is forgotten.

## Theorems

* `act_load`: What a step spends.
* `act_flowing`: What a step keeps.
* `flowing_goes`: Somebody can go on.
* `pipeline_drains`: The events that were read, in every run.
-/

namespace ZeusOS

namespace InputManager

open Foundation.Potential Foundation.Runs
open ZeusOS.Input (CookEvent)
open ThreadPool (step_cases)

/-- The steps due in the reader, and because of what it has. -/
def Reader.load (r : Reader) : Nat := 5 * (pending r).length + 4 * r.cv.toList.length

/-- The steps that are due. -/
def Server.load (s : Server) : Nat := s.reader.load + s.mDispatchthread.pool.load

/-- The steps of the reader between two reads, and of the worker. -/
def Move.work : Move → Nat
  | .copy _ | .addTask _ | .executeThread | .dispatchEvent => 1
  | .readOnce _ _ | .spurious | .serve _ => 0

/-- The steps that a move gives rise to. -/
def Move.stirs : Move → Nat
  | .readOnce cookEvent iRet => 5 * (cookEvent.take iRet.toNat).length
  | .spurious => 1
  | .copy _ | .addTask _ | .executeThread | .dispatchEvent | .serve _ => 0

variable {s s' : Server} {m : Move}

theorem act_load (h : act s m = some s') : s'.load + m.work ≤ s.load + m.stirs := by
  cases act_cases h with
  | idles cookEvent iRet hend =>
      -- A `readOnce` without events leaves nothing due in the reader.
      have hbefore := pending_end hend
      have hafter : pending { s.reader with cookEvent, iRet := 0, i := 0 } = [] := pending_end rfl
      simp only [Server.load, Reader.load, hbefore, hafter, Move.work, Move.stirs]
      omega
  | reads cookEvent iRet hend hcv =>
      have hbefore := pending_end hend
      have hafter : pending { cookEvent, iRet := iRet.toNat, i := 0, cv := none }
          = cookEvent.take iRet.toNat := rfl
      simp only [Server.load, Reader.load, hbefore, hafter, hcv, Option.toList_none,
        List.length_nil, Move.work, Move.stirs]
      omega
  | copies cv ev hlt hcv _ hslot =>
      -- One event less in the array, and one copy more in hand.
      have hpending := congrArg List.length (pending_copy cv hlt hcv hslot)
      rw [List.length_cons] at hpending
      simp only [Server.load, Reader.load, hpending, hcv, Option.toList_none, Option.toList_some,
        List.length_nil, List.length_singleton, Move.work, Move.stirs]
      omega
  | queues cv woken d hcv hpool =>
      have hpending : pending { s.reader with i := s.reader.i + 1, cv := none }
          = pending s.reader := by
        simp only [pending, hcv, Option.toList_none, List.length_nil, Nat.add_zero,
          Option.toList_some, List.length_singleton]
      have hload := ThreadPool.step_load _ _ _ hpool
      simp only [ThreadPool.Action.work, ThreadPool.Action.stirs] at hload
      simp only [Server.load, Reader.load, hpending, hcv, Option.toList_none, Option.toList_some,
        List.length_nil, List.length_singleton, Move.work, Move.stirs]
      omega
  | executes d hpool | dispatches _ _ d _ _ hpool | wakes d hpool =>
      -- Only the pool moves, and it has an account of its own.
      have hload := ThreadPool.step_load _ _ _ hpool
      simp only [ThreadPool.Action.work, ThreadPool.Action.stirs] at hload
      simp only [Server.load, Move.work, Move.stirs]
      omega
  | serves _ _ _ => exact Nat.le_refl _

/-- The steps the threads take by themselves, as a kind of move. -/
inductive Own : Move → Prop
  | copy (cv : UInt32) : Own (.copy cv)
  | addTask (woken : Option (Fin 1)) : Own (.addTask woken)
  | executeThread : Own .executeThread
  | dispatchEvent : Own .dispatchEvent

theorem own_work (m : Move) (h : Own m) : m.stirs = 0 ∧ 0 < m.work := by
  cases h with
  | copy | addTask | executeThread | dispatchEvent => exact ⟨rfl, Nat.one_pos⟩

/-- The reader is inside its batch, the pool is at work, and the copies are
    those on their way. -/
structure Flowing (s : Server) : Prop where
  conveys : Conveys s
  living : ThreadPool.Living s.mDispatchthread
  running : s.mDispatchthread.pool.mPoolState ≠ .stopped
  inside : s.reader.i + s.reader.cv.toList.length ≤ s.reader.iRet
  owned : ∀ cv, s.heap cv ≠ none → cv ∈ line s

theorem flowing_start : Flowing Server.start := by
  refine ⟨conveys_start, ThreadPool.living_start (-1), ?_, Nat.le_refl 0, fun cv h => ?_⟩
  · intro hstopped
    cases hstopped
  · exact absurd rfl h

/-- Only the shutdown stops the pool. -/
theorem step_running {d d' : ThreadPool.System 1 UInt32} {a : ThreadPool.Action 1 UInt32}
    (ha : a ≠ .destroyThreadpool) (h : ThreadPool.step d a = some d') :
    d'.pool.mPoolState = d.pool.mPoolState := by
  cases step_cases h with
  | refuses _ _ _ | finishes _ _ _ | wakes _ _ => rfl
  | accepts _ _ _ _ => rw [ThreadPool.signal_mPoolState]
  | executes w task pool _ hexecuted =>
      cases hexecuted with
      | blocks _ _ | exits _ | takes _ _ _ _ => rfl
  | destroys _ _ _ => exact absurd rfl ha

/-- What a step of the pool keeps. -/
theorem step_flows {d d' : ThreadPool.System 1 UInt32} {a : ThreadPool.Action 1 UInt32}
    (ha : a ≠ .destroyThreadpool) (hliving : ThreadPool.Living d)
    (hrunning : d.pool.mPoolState ≠ .stopped) (h : ThreadPool.step d a = some d') :
    ThreadPool.Living d' ∧ d'.pool.mPoolState ≠ .stopped := by
  refine ⟨ThreadPool.step_living Nat.one_pos d a d' hliving h, ?_⟩
  rw [step_running ha h]
  exact hrunning

theorem act_flowing (s : Server) (m : Move) (s' : Server) (hs : Flowing s)
    (h : act s m = some s') : Flowing s' := by
  have hconveys := act_conveys s m s' hs.conveys h
  have hunlimited := hs.conveys.unlimited
  cases act_cases h with
  | idles cookEvent iRet hend =>
      -- A copy in hand belongs to an event of the batch, and there is none left.
      have hcv : s.reader.cv = none := by
        have hinside := hs.inside
        rcases hcv : s.reader.cv with _ | cv
        · rfl
        · rw [hcv, Option.toList_some, List.length_singleton] at hinside
          omega
      refine ⟨hconveys, hs.living, hs.running, ?_, hs.owned⟩
      simp only [hcv, Option.toList_none, List.length_nil]
      omega
  | reads cookEvent iRet hend hcv =>
      refine ⟨hconveys, hs.living, hs.running, Nat.zero_le _, fun cv hheld => ?_⟩
      have hline := hs.owned cv hheld
      rwa [line, hcv] at hline
  | copies cv ev hlt hcv _ _ =>
      refine ⟨hconveys, hs.living, hs.running, hlt, fun cv' hheld => ?_⟩
      by_cases heq : cv' = cv
      · -- The new copy is the last on the line.
        rw [heq]
        exact List.mem_append_right _ List.mem_cons_self
      · simp only [Function.update_of_ne heq] at hheld
        have hline := hs.owned cv' hheld
        rw [line, hcv, Option.toList_none, List.append_nil] at hline
        exact List.mem_append_left _ hline
  | queues cv woken d hcv hpool =>
      -- The copy stays on the line, and only its place is another.
      have hinside := hs.inside
      rw [hcv, Option.toList_some, List.length_singleton] at hinside
      rcases step_flows (fun hc => by cases hc) hs.living hs.running hpool with
        ⟨hliving, hrunning⟩
      refine ⟨hconveys, hliving, hrunning, hinside, fun cv' hheld => ?_⟩
      have hline := hs.owned cv' hheld
      rw [line, hcv, Option.toList_some, ← (held_addTask hunlimited hpool).1] at hline
      exact List.mem_append_left _ hline
  | executes d hpool =>
      rcases step_flows (fun hc => by cases hc) hs.living hs.running hpool with
        ⟨hliving, hrunning⟩
      refine ⟨hconveys, hliving, hrunning, hs.inside, fun cv hheld => ?_⟩
      rw [line, (held_executeThread hpool).1]
      exact hs.owned cv hheld
  | dispatches cv ev d hworker _ hpool =>
      rcases step_flows (fun hc => by cases hc) hs.living hs.running hpool with
        ⟨hliving, hrunning⟩
      refine ⟨hconveys, hliving, hrunning, hs.inside, fun cv' hheld => ?_⟩
      by_cases heq : cv' = cv
      · -- The worker has freed this one.
        simp only [heq, Function.update_self] at hheld
        exact absurd rfl hheld
      · simp only [Function.update_of_ne heq] at hheld
        have hline := hs.owned cv' hheld
        rw [line, (held_finish hworker hpool).1, List.cons_append] at hline
        exact (List.mem_cons.mp hline).resolve_left heq
  | wakes d hpool =>
      rcases step_flows (fun hc => by cases hc) hs.living hs.running hpool with
        ⟨hliving, hrunning⟩
      refine ⟨hconveys, hliving, hrunning, hs.inside, fun cv hheld => ?_⟩
      rw [line, (held_spurious hpool).1]
      exact hs.owned cv hheld
  | serves _ _ _ => exact ⟨hconveys, hs.living, hs.running, hs.inside, hs.owned⟩

/-- When nothing is on its way there are no copies. -/
theorem line_of_idle (hidle : Idle s) : line s = [] := by
  have hworker : inFlight (s.mDispatchthread.pool.workers 0) = [] := by
    rcases hw : s.mDispatchthread.pool.workers 0 with _ | _ | cv | _
    · rfl
    · rfl
    · exact absurd hw (hidle.worker cv)
    · rfl
  simp only [line, held, hworker, hidle.empty, hidle.queued.2, Option.toList_none, List.append_nil]

/-- The array is shorter than `readOnce` says. -/
def Short (s : Server) : Prop := s.reader.cookEvent.length < s.reader.iRet

/-- As long as anything is on its way, somebody can go on. -/
theorem flowing_goes (hs : Flowing s) (hbusy : ¬ (Idle s ∨ Short s)) :
    ∃ m, Own m ∧ (act s m).isSome = true := by
  have hrunning := hs.running
  rcases hworker : s.mDispatchthread.pool.workers 0 with _ | _ | cv | _
  · -- A worker that is ready can have the lock.
    refine ⟨.executeThread, .executeThread, ?_⟩
    simp only [act, Server.pool, ThreadPool.step, Option.isSome_map, ThreadPool.executeThread,
      hworker]
    rcases htasks : s.mDispatchthread.pool.mTasks with _ | ⟨task, rest⟩
    · simp only [List.isEmpty_nil, and_true, if_pos hrunning, Option.isSome_some]
    · simp only [List.isEmpty_cons, Bool.false_eq_true, and_false, if_false, if_neg hrunning,
        Option.isSome_some]
  · -- A worker sleeps over an empty queue. Then it is the reader's turn.
    have hempty : s.mDispatchthread.pool.mTasks = [] := by
      by_contra hne
      rcases hs.living.awake hne hrunning with ⟨w, hw⟩
      rw [Subsingleton.elim w 0] at hw
      exact hw hworker
    rcases hcv : s.reader.cv with _ | cv
    · -- The reader has an event left, and memory for its copy.
      have hlt : s.reader.i < s.reader.iRet := by
        have hinside := hs.inside
        rw [hcv, Option.toList_none, List.length_nil] at hinside
        by_contra hend
        refine hbusy (Or.inl ⟨⟨by omega, hcv⟩, hempty, fun cv hc => ?_⟩)
        rw [hworker] at hc
        cases hc
      have hslot : s.reader.i < s.reader.cookEvent.length := by
        have hlong : ¬ Short s := fun hshort => hbusy (Or.inr hshort)
        unfold Short at hlong
        omega
      have hline : line s = [] := by
        simp only [line, held, hworker, inFlight, hempty, hcv, Option.toList_none, List.append_nil]
      have hfree : s.heap 0 = none := by
        by_contra hheld
        have hmem := hs.owned 0 hheld
        rw [hline] at hmem
        cases hmem
      refine ⟨.copy 0, .copy 0, ?_⟩
      simp only [act, if_pos (And.intro hlt (And.intro hcv hfree)), List.getElem?_eq_getElem hslot,
        Option.map_some, Option.isSome_some]
    · -- A copy in hand is queued.
      refine ⟨.addTask (some 0), .addTask (some 0), ?_⟩
      have hcan : ThreadPool.CanWake s.mDispatchthread.pool (some 0) := hworker
      simp only [act, hcv, Option.bind_some, Option.isSome_map, Server.pool, ThreadPool.step,
        if_pos (Or.inr hcan), Option.isSome_some]
  · -- What the worker has is in memory.
    have hmem : cv ∈ line s := by
      simp only [line, held, hworker, inFlight, List.cons_append, List.mem_cons, true_or]
    rcases hs.conveys.conserved with ⟨events, hheld, _⟩
    have hheap := List.mem_map_of_mem (f := s.heap) hmem
    rw [hheld] at hheap
    rcases List.mem_map.mp hheap with ⟨ev, _, hev⟩
    refine ⟨.dispatchEvent, .dispatchEvent, ?_⟩
    simp only [act, hworker, ← hev, Option.bind_some, Option.isSome_map, Server.pool,
      ThreadPool.step, ThreadPool.finish, Option.isSome_some]
  · exact absurd hworker (hs.living.present hrunning 0)

/-- Between two reads nothing is read. -/
theorem own_kept (hm : Own m) (h : act s m = some s') :
    s'.read = s.read ∧ s'.reader.cookEvent = s.reader.cookEvent ∧
      s'.reader.iRet = s.reader.iRet := by
  cases act_cases h with
  | idles | reads | wakes | serves => cases hm
  | copies | queues | executes | dispatches => exact ⟨rfl, rfl, rfl⟩

/-- What `readOnce` is to be trusted with: it fills as many slots as it says. -/
def Fits : Move → Prop
  | .readOnce cookEvent iRet => iRet ≤ cookEvent.length
  | _ => True

theorem act_long (hm : Fits m) (hlong : ¬ Short s) (h : act s m = some s') : ¬ Short s' := by
  unfold Short at hlong ⊢
  cases act_cases h with
  | idles cookEvent iRet _ => exact Nat.not_lt_zero _
  | reads cookEvent iRet _ _ =>
      have hfits : iRet ≤ cookEvent.length := hm
      simp only
      omega
  | copies | queues | executes | dispatches | wakes | serves => exact hlong

theorem flowing_amortized : Amortized act Flowing Server.load Move.stirs Move.work :=
  ⟨act_flowing, fun _ _ _ _ h => act_load h⟩

/-- In every run in which `readOnce` fills as many slots as it says and every
    dispatch is one step, its writes complete: the threads take no more than five
    steps for every event that was read, one for every wake-up without a signal,
    and one more, with which the worker begins; a copy is in memory exactly as long as it is
    on its way; as long as anything is, some thread can go on; and if nothing
    further is read they come to rest by themselves, with everything that was
    read dispatched in order and every copy freed. -/
theorem pipeline_drains (moves : List Move) (hfits : ∀ m ∈ moves, Fits m) (s : Server)
    (hrun : run act Server.start moves = some s) :
    s.load + total Move.work moves ≤ 1 + total Move.stirs moves ∧
      (∀ cv, s.heap cv ≠ none ↔ cv ∈ line s) ∧
      (¬ Idle s → ∃ m, Own m ∧ (act s m).isSome = true) ∧
      ∃ more t, run act s more = some t ∧ (∀ m ∈ more, Own m) ∧ more.length ≤ s.load ∧ Idle t ∧
        t.dispatched.map Prod.fst = s.read ∧ ∀ cv, t.heap cv = none := by
  have hs := run_invariant act Flowing act_flowing _ s moves flowing_start hrun
  have hlong : ¬ Short s :=
    run_invariant_mem act (fun u => ¬ Short u) moves
      (fun u m u' hm hu h => act_long (hfits m hm) hu h) _ s (Nat.not_lt_zero _) hrun
  refine ⟨amortized_run flowing_amortized flowing_start hrun, fun cv => ⟨hs.owned cv, ?_⟩, ?_, ?_⟩
  · -- A copy on its way holds an event.
    intro hmem hnone
    exact fresh_of_none hs.conveys hnone hmem
  · exact fun hbusy => flowing_goes hs fun hc => hc.elim hbusy hlong
  · rcases amortized_finishes flowing_amortized own_work (fun u hu hc => flowing_goes hu hc) hs with
      ⟨more, t, hmore, hrest, ht, hown, hlength⟩
    have hkept : t.read = s.read ∧ t.reader.cookEvent = s.reader.cookEvent ∧
        t.reader.iRet = s.reader.iRet :=
      run_invariant_mem act
        (fun u => u.read = s.read ∧ u.reader.cookEvent = s.reader.cookEvent ∧
          u.reader.iRet = s.reader.iRet) more
        (fun u m u' hm hu h => by
          rcases own_kept (hown m hm) h with ⟨hread, hcookEvent, hiRet⟩
          exact ⟨hread.trans hu.1, hcookEvent.trans hu.2.1, hiRet.trans hu.2.2⟩)
        s t ⟨rfl, rfl, rfl⟩ hmore
    -- They have stopped because nothing is left, and not at the end of the array.
    have hidle : Idle t := by
      refine hrest.resolve_right fun hshort => hlong ?_
      rwa [Short, hkept.2.1, hkept.2.2] at hshort
    refine ⟨more, t, hmore, hown, hlength, hidle, ?_, fun cv => ?_⟩
    · rw [dispatched_of_idle ht.conveys hidle, hkept.1]
    · by_contra hheld
      have hmem := ht.owned cv hheld
      rw [line_of_idle hidle] at hmem
      cases hmem

/-- Two events have been read. The first is queued, while the worker sleeps
    again, and the second is still in the array. -/
def underWay : List Move :=
  [.executeThread, .readOnce [eventAt 1 3, eventAt 256 0] 2, .copy 0x100, .spurious, .executeThread,
    .addTask (some (Fin.last 0))]

theorem pipeline_drains_sample :
    ∃ s, run act Server.start underWay = some s ∧ s.load = 8 ∧ ¬ Idle s ∧
      ∃ more t, run act s more = some t ∧ (∀ m ∈ more, Own m) ∧ more.length ≤ s.load ∧ Idle t ∧
        t.dispatched.map Prod.fst = [eventAt 1 3, eventAt 256 0] ∧ ∀ cv, t.heap cv = none := by
  have hparts : (run act Server.start underWay).map
      (fun s => (s.read, s.load, s.mDispatchthread.pool.mTasks))
      = some ([eventAt 1 3, eventAt 256 0], 8, [0x100]) := by decide +kernel
  rcases Option.map_eq_some_iff.mp hparts with ⟨s, hrun, hparts⟩
  rcases Prod.mk.inj hparts with ⟨hread, hparts⟩
  rcases Prod.mk.inj hparts with ⟨hload, htasks⟩
  have hfits : ∀ m ∈ underWay, Fits m := by
    intro m hm
    simp only [underWay, List.mem_cons, List.not_mem_nil, or_false] at hm
    rcases hm with rfl | rfl | rfl | rfl | rfl | rfl
    all_goals simp [Fits]
  have hdrains := (pipeline_drains underWay hfits s hrun).2.2.2
  rw [hread] at hdrains
  refine ⟨s, hrun, hload, fun hidle => ?_, hdrains⟩
  have hempty := hidle.empty
  rw [htasks] at hempty
  cases hempty

end InputManager

end ZeusOS
