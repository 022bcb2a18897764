import ZeusOS.InputManager.Listeners
import ZeusOS.ThreadPool.Queue

/-!
# From the Reader to the Listeners

The three threads of the input manager's process: the reader, which reads
events in batches and queues each for dispatch; the dispatch pool, of one
worker; and the thread that serves requests and deaths. They take turns in any
order.

The reader uses one array for all its batches, so an event does not stay where
it was read. It is copied into memory of its own before it is queued, and that
memory is freed when it has been dispatched. What is queued is the address.

Between being read and being dispatched an event is in one of four places: in
the array, copied and about to be queued, in the queue, or with the worker.
These are one line. Events enter it in the order in which they are read and
leave it in that order, since every place is first in, first out, and the
worker holds one at a time. `Conveys` is the invariant; whom an event is then
written to is decided when it leaves.

## Main definitions

* `Reader`, `Server`, `Move`, `act`: The process.
* `Acted`: What a step can have done.
* `line`, `pending`, `Conveys`: Events on their way.
* `wants`, `writesTo`: What a listener is to get, and gets.
* `Idle`: Nothing is on its way.

## Theorems

* `act_cases`: The outcomes of a step.
* `held_addTask`, `held_executeThread`, `held_finish`: Copies in the pool.
* `dispatchEvent_writesTo`: One dispatch.
* `act_conveys`, `act_served`: What a step keeps.
* `delivered_in_order`: What listeners get, in every run.
-/

namespace ZeusOS

namespace InputManager

open Foundation.Fifo Foundation.Runs Binder
open ZeusOS.Input (CookEvent)
open ThreadPool (Worker step_cases)

/-- The locals of `inputReaderThread`: its array, how many slots `readOnce`
    filled, the slot it has got to, and the copy it has made of that slot. -/
structure Reader where
  cookEvent : List CookEvent
  iRet : Nat
  i : Nat
  cv : Option UInt32

/-- The process. `heap` holds the copies. Besides, there is what has been read,
    what was dispatched and with which list, and what was written to whom. -/
structure Server where
  reader : Reader
  heap : UInt32 → Option CookEvent
  mDispatchthread : ThreadPool.System 1 UInt32
  listeners : State
  read : List CookEvent
  dispatched : List (CookEvent × List ListenerDesc)
  writes : List (ListenerDesc × CookEvent)

/-- The process when its threads have been started. The pool has the size and
    the limit its constructor and `BnInputManager` give it. -/
def Server.start : Server :=
  { reader := { cookEvent := [], iRet := 0, i := 0, cv := none }
    heap := fun _ => none
    mDispatchthread := ThreadPool.System.start 1 UInt32 (-1)
    listeners := State.init
    read := []
    dispatched := []
    writes := [] }

/-- What can happen next. -/
inductive Move where
  /-- `readOnce` returns, having left this in the array. -/
  | readOnce (cookEvent : List CookEvent) (iRet : Int)
  /-- The slot is copied into new memory. -/
  | copy (cv : UInt32)
  /-- The copy is queued. -/
  | addTask (woken : Option (Fin 1))
  /-- The worker gets the lock. -/
  | executeThread
  /-- The worker dispatches the event it has and frees it. -/
  | dispatchEvent
  /-- The worker wakes up for no reason. -/
  | spurious
  /-- A request or a death is handled. -/
  | serve (input : Input)

/-- A step of the dispatch pool. -/
def Server.pool (s : Server) (a : ThreadPool.Action 1 UInt32) : Option Server :=
  (ThreadPool.step s.mDispatchthread a).map fun mDispatchthread => { s with mDispatchthread }

def act (s : Server) : Move → Option Server
  | .readOnce cookEvent iRet =>
    -- The loop over the last batch is through.
    if s.reader.i = s.reader.iRet ∧ s.reader.cv = none then
      if iRet ≤ 0 then some { s with reader := { s.reader with cookEvent, iRet := 0, i := 0 } }
      else some { s with
        reader := { cookEvent, iRet := iRet.toNat, i := 0, cv := none }
        read := s.read ++ cookEvent.take iRet.toNat }
    else none
  | .copy cv =>
    if s.reader.i < s.reader.iRet ∧ s.reader.cv = none ∧ s.heap cv = none then
      (s.reader.cookEvent[s.reader.i]?).map fun ev =>
        { s with
          reader := { s.reader with cv := some cv }
          heap := Function.update s.heap cv (some ev) }
    else none
  | .addTask woken =>
    s.reader.cv.bind fun cv =>
      (s.pool (.addTask cv woken)).map fun s =>
        { s with reader := { s.reader with i := s.reader.i + 1, cv := none } }
  | .executeThread => s.pool (.executeThread 0)
  | .dispatchEvent =>
    match s.mDispatchthread.pool.workers 0 with
    | .running cv =>
      (s.heap cv).bind fun ev =>
        (s.pool (.finish 0)).map fun s =>
          { s with
            heap := Function.update s.heap cv none
            dispatched := s.dispatched ++ [(ev, s.listeners.manager.mListenerDescList)]
            writes := s.writes ++ dispatchEvent ev s.listeners.manager.mListenerDescList }
    | _ => none
  | .spurious => s.pool (.spurious 0)
  | .serve input => (step s.listeners input).map fun listeners => { s with listeners }

/-- The copy the worker has. -/
def inFlight : Worker UInt32 → List UInt32
  | .running cv => [cv]
  | _ => []

/-- The copies the pool has, the worker's first. -/
def held (d : ThreadPool.System 1 UInt32) : List UInt32 :=
  inFlight (d.pool.workers 0) ++ d.pool.mTasks

/-- The copies on their way, the foremost first. -/
def line (s : Server) : List UInt32 := held s.mDispatchthread ++ s.reader.cv.toList

/-- The slots of the batch that have not been copied. -/
def pending (r : Reader) : List CookEvent :=
  (r.cookEvent.take r.iRet).drop (r.i + r.cv.toList.length)

/-- What has been read has been dispatched, in the order in which it was read,
    or is on its way, every event in memory of its own. -/
structure Conveys (s : Server) : Prop where
  unlimited : s.mDispatchthread.pool.mTaskSizeLimit = -1
  apart : (line s).Nodup
  conserved : ∃ events, (line s).map s.heap = events.map some ∧
    Conserved s.read (s.dispatched.map Prod.fst) (events ++ pending s.reader)

/-- What a step can have done. -/
inductive Acted (s : Server) : Move → Server → Prop
  | idles (cookEvent : List CookEvent) (iRet : Int) (hend : s.reader.i = s.reader.iRet) :
      Acted s (.readOnce cookEvent iRet)
        { s with reader := { s.reader with cookEvent, iRet := 0, i := 0 } }
  | reads (cookEvent : List CookEvent) (iRet : Int) (hend : s.reader.i = s.reader.iRet)
      (hcv : s.reader.cv = none) :
      Acted s (.readOnce cookEvent iRet)
        { s with
          reader := { cookEvent, iRet := iRet.toNat, i := 0, cv := none }
          read := s.read ++ cookEvent.take iRet.toNat }
  | copies (cv : UInt32) (ev : CookEvent) (hlt : s.reader.i < s.reader.iRet)
      (hcv : s.reader.cv = none) (hfree : s.heap cv = none)
      (hslot : s.reader.cookEvent[s.reader.i]? = some ev) :
      Acted s (.copy cv)
        { s with
          reader := { s.reader with cv := some cv }
          heap := Function.update s.heap cv (some ev) }
  | queues (cv : UInt32) (woken : Option (Fin 1)) (d : ThreadPool.System 1 UInt32)
      (hcv : s.reader.cv = some cv)
      (hpool : ThreadPool.step s.mDispatchthread (.addTask cv woken) = some d) :
      Acted s (.addTask woken)
        { s with
          reader := { s.reader with i := s.reader.i + 1, cv := none }
          mDispatchthread := d }
  | executes (d : ThreadPool.System 1 UInt32)
      (hpool : ThreadPool.step s.mDispatchthread (.executeThread 0) = some d) :
      Acted s .executeThread { s with mDispatchthread := d }
  | dispatches (cv : UInt32) (ev : CookEvent) (d : ThreadPool.System 1 UInt32)
      (hworker : s.mDispatchthread.pool.workers 0 = .running cv) (hev : s.heap cv = some ev)
      (hpool : ThreadPool.step s.mDispatchthread (.finish 0) = some d) :
      Acted s .dispatchEvent
        { s with
          mDispatchthread := d
          heap := Function.update s.heap cv none
          dispatched := s.dispatched ++ [(ev, s.listeners.manager.mListenerDescList)]
          writes := s.writes ++ dispatchEvent ev s.listeners.manager.mListenerDescList }
  | wakes (d : ThreadPool.System 1 UInt32)
      (hpool : ThreadPool.step s.mDispatchthread (.spurious 0) = some d) :
      Acted s .spurious { s with mDispatchthread := d }
  | serves (input : Input) (listeners : State) (hstep : step s.listeners input = some listeners) :
      Acted s (.serve input) { s with listeners }

theorem act_cases {s s' : Server} {m : Move} (h : act s m = some s') : Acted s m s' := by
  cases m with
  | readOnce cookEvent iRet =>
      simp only [act, Option.ite_none_right_eq_some] at h
      rcases h with ⟨⟨hend, hcv⟩, h⟩
      by_cases hnone : iRet ≤ 0
      · -- Nothing was read, though the array may have been written to.
        rw [if_pos hnone, Option.some.injEq] at h
        rw [← h]
        exact .idles cookEvent iRet hend
      · rw [if_neg hnone, Option.some.injEq] at h
        rw [← h]
        exact .reads cookEvent iRet hend hcv
  | copy cv =>
      simp only [act, Option.ite_none_right_eq_some, Option.map_eq_some_iff] at h
      rcases h with ⟨⟨hlt, hcv, hfree⟩, ev, hslot, rfl⟩
      exact .copies cv ev hlt hcv hfree hslot
  | addTask woken =>
      simp only [act, Option.bind_eq_some_iff, Option.map_eq_some_iff, Server.pool] at h
      rcases h with ⟨cv, hcv, _, ⟨d, hpool, rfl⟩, rfl⟩
      exact .queues cv woken d hcv hpool
  | executeThread =>
      simp only [act, Server.pool, Option.map_eq_some_iff] at h
      rcases h with ⟨d, hpool, rfl⟩
      exact .executes d hpool
  | dispatchEvent =>
      unfold act at h
      rcases hworker : s.mDispatchthread.pool.workers 0 with _ | _ | cv | _
      all_goals simp only [hworker, reduceCtorEq, Option.bind_eq_some_iff, Option.map_eq_some_iff,
        Server.pool] at h
      rcases h with ⟨ev, hev, _, ⟨d, hpool, rfl⟩, rfl⟩
      exact .dispatches cv ev d hworker hev hpool
  | spurious =>
      simp only [act, Server.pool, Option.map_eq_some_iff] at h
      rcases h with ⟨d, hpool, rfl⟩
      exact .wakes d hpool
  | serve input =>
      simp only [act, Option.map_eq_some_iff] at h
      rcases h with ⟨listeners, hstep, rfl⟩
      exact .serves input listeners hstep

theorem not_full {p : ThreadPool.Pool 1 UInt32} (h : p.mTaskSizeLimit = -1) : ¬ p.full := by
  rintro ⟨hpos, _⟩
  rw [h] at hpos
  exact absurd hpos (by decide)

/-- Whom a signal wakes has no task. -/
theorem inFlight_signal {p : ThreadPool.Pool 1 UInt32} {woken : Option (Fin 1)}
    (h : ThreadPool.CanWake p woken) :
    inFlight ((ThreadPool.signal woken p).workers 0) = inFlight (p.workers 0) := by
  cases woken with
  | none => rfl
  | some w =>
      have hw : w = 0 := Subsingleton.elim w 0
      subst hw
      have hblocked : p.workers 0 = .blocked := h
      rw [hblocked]
      simp only [ThreadPool.signal, ThreadPool.setWorker_self, inFlight]

section

variable {d d' : ThreadPool.System 1 UInt32}

/-- Without a limit a task is put in, and at the end. -/
theorem held_addTask {cv : UInt32} {woken : Option (Fin 1)} (hlimit : d.pool.mTaskSizeLimit = -1)
    (h : ThreadPool.step d (.addTask cv woken) = some d') :
    held d' = held d ++ [cv] ∧ d'.pool.mTaskSizeLimit = -1 := by
  cases step_cases h with
  | refuses _ _ hfull => exact absurd hfull (not_full hlimit)
  | accepts _ _ _ hcan =>
      have hworker : inFlight ((ThreadPool.signal woken
          { d.pool with mTasks := d.pool.mTasks ++ [cv] }).workers 0)
            = inFlight (d.pool.workers 0) := inFlight_signal hcan
      constructor
      · simp only [held, hworker, ThreadPool.signal_mTasks, List.append_assoc]
      · simp only [ThreadPool.signal_mTaskSizeLimit, hlimit]

/-- The worker takes the foremost of the queue, or nothing. -/
theorem held_executeThread (h : ThreadPool.step d (.executeThread 0) = some d') :
    held d' = held d ∧ d'.pool.mTaskSizeLimit = d.pool.mTaskSizeLimit := by
  cases step_cases h with
  | executes _ _ _ hready hexecuted =>
      cases hexecuted with
      | blocks _ _ | exits _ =>
          refine ⟨?_, rfl⟩
          simp only [held, hready, ThreadPool.setWorker_self, ThreadPool.setWorker_mTasks, inFlight]
      | takes cv rest _ htasks =>
          refine ⟨?_, rfl⟩
          simp only [held, hready, ThreadPool.setWorker_self, ThreadPool.setWorker_mTasks, inFlight,
            htasks, List.nil_append, List.cons_append]

theorem held_spurious (h : ThreadPool.step d (.spurious 0) = some d') :
    held d' = held d ∧ d'.pool.mTaskSizeLimit = d.pool.mTaskSizeLimit := by
  cases step_cases h with
  | wakes _ hblocked =>
      refine ⟨?_, rfl⟩
      simp only [held, hblocked, ThreadPool.setWorker_self, ThreadPool.setWorker_mTasks, inFlight]

/-- What a worker is through with was the foremost of all. -/
theorem held_finish {cv : UInt32} (hworker : d.pool.workers 0 = .running cv)
    (h : ThreadPool.step d (.finish 0) = some d') :
    held d = cv :: held d' ∧ d'.pool.mTaskSizeLimit = d.pool.mTaskSizeLimit := by
  cases step_cases h with
  | finishes _ _ _ =>
      refine ⟨?_, rfl⟩
      simp only [held, hworker, ThreadPool.setWorker_self, ThreadPool.setWorker_mTasks, inFlight,
        List.nil_append, List.cons_append]

end

/-- A slot that is copied is the next of the batch. -/
theorem pending_copy {r : Reader} {ev : CookEvent} (cv : UInt32) (hlt : r.i < r.iRet)
    (hcv : r.cv = none) (hslot : r.cookEvent[r.i]? = some ev) :
    pending r = ev :: pending { r with cv := some cv } := by
  rcases List.getElem?_eq_some_iff.mp hslot with ⟨hlength, hget⟩
  have hlength' : r.i < (r.cookEvent.take r.iRet).length := by
    rw [List.length_take]
    omega
  unfold pending
  simp only [hcv, Option.toList_none, List.length_nil, Nat.add_zero, Option.toList_some,
    List.length_singleton]
  rw [List.drop_eq_getElem_cons hlength', List.getElem_take, hget]

/-- A batch that is through has no slot left. -/
theorem pending_end {r : Reader} (hend : r.i = r.iRet) : pending r = [] := by
  unfold pending
  apply List.drop_eq_nil_of_le
  rw [List.length_take]
  omega

/-- Memory that holds nothing yet holds nothing on its way. -/
theorem fresh_of_none {s : Server} (hs : Conveys s) {cv : UInt32} (hcv : s.heap cv = none) :
    cv ∉ line s := by
  intro hmem
  rcases hs.conserved with ⟨events, hheld, _⟩
  have := List.mem_map_of_mem (f := s.heap) hmem
  rw [hheld, hcv] at this
  rcases List.mem_map.mp this with ⟨_, _, heq⟩
  cases heq

/-- Memory that is not on the line may change without the line. -/
theorem map_heap_update {l : List UInt32} {heap : UInt32 → Option CookEvent} {cv : UInt32}
    (h : cv ∉ l) (held : Option CookEvent) : l.map (Function.update heap cv held) = l.map heap := by
  refine List.map_congr_left fun a ha => Function.update_of_ne ?_ _ _
  intro heq
  rw [heq] at ha
  exact h ha

/-- A step that moves the copies along the line keeps it. -/
theorem conveys_of_line {s s' : Server} (hs : Conveys s)
    (hlimit : s'.mDispatchthread.pool.mTaskSizeLimit = s.mDispatchthread.pool.mTaskSizeLimit)
    (hline : line s' = line s) (hheap : s'.heap = s.heap) (hread : s'.read = s.read)
    (hdispatched : s'.dispatched = s.dispatched) (hpending : pending s'.reader = pending s.reader) :
    Conveys s' := by
  refine ⟨hlimit.trans hs.unlimited, ?_, ?_⟩
  · rw [hline]
    exact hs.apart
  · rw [hline, hheap, hread, hdispatched, hpending]
    exact hs.conserved

/-- A batch that has been read is behind everything that is on its way. -/
theorem conveys_reads {s : Server} (hs : Conveys s) (cookEvent : List CookEvent) (iRet : Int)
    (hend : s.reader.i = s.reader.iRet) (hcv : s.reader.cv = none) :
    Conveys { s with
      reader := { cookEvent, iRet := iRet.toNat, i := 0, cv := none }
      read := s.read ++ cookEvent.take iRet.toNat } := by
  rcases hs.conserved with ⟨events, hheld, hconserved⟩
  have hline : line { s with
      reader := { cookEvent, iRet := iRet.toNat, i := 0, cv := none }
      read := s.read ++ cookEvent.take iRet.toNat } = line s := by
    unfold line
    rw [hcv]
  rw [pending_end hend, List.append_nil] at hconserved
  refine ⟨hs.unlimited, hline.symm ▸ hs.apart, events, ?_, conserved_push hconserved _⟩
  rw [hline, hheld]

/-- A copy is behind the others. -/
theorem conveys_copies {s : Server} (hs : Conveys s) {cv : UInt32} {ev : CookEvent}
    (hlt : s.reader.i < s.reader.iRet) (hcv : s.reader.cv = none) (hfree : s.heap cv = none)
    (hslot : s.reader.cookEvent[s.reader.i]? = some ev) :
    Conveys { s with
      reader := { s.reader with cv := some cv }
      heap := Function.update s.heap cv (some ev) } := by
  rcases hs.conserved with ⟨events, hheld, hconserved⟩
  have hfresh := fresh_of_none hs hfree
  have hline : line { s with
      reader := { s.reader with cv := some cv }
      heap := Function.update s.heap cv (some ev) } = line s ++ [cv] := by
    unfold line
    simp only [hcv, Option.toList_none, Option.toList_some, List.append_nil]
  refine ⟨hs.unlimited, ?_, events ++ [ev], ?_, ?_⟩
  · rw [hline]
    refine List.nodup_append.mpr ⟨hs.apart, List.nodup_singleton _, ?_⟩
    intro a ha b hb hab
    rw [List.mem_singleton.mp hb] at hab
    rw [hab] at ha
    exact hfresh ha
  · rw [hline, List.map_append, List.map_append, map_heap_update hfresh, hheld]
    simp only [List.map_cons, List.map_nil, Function.update_self]
  · rw [pending_copy cv hlt hcv hslot] at hconserved
    rw [List.append_assoc]
    exact hconserved

/-- The event that is dispatched is the foremost of those on their way. -/
theorem conveys_dispatches {s : Server} (hs : Conveys s) {cv : UInt32} {ev : CookEvent}
    {d : ThreadPool.System 1 UInt32} (hheldd : held s.mDispatchthread = cv :: held d)
    (hlimit : d.pool.mTaskSizeLimit = s.mDispatchthread.pool.mTaskSizeLimit)
    (hev : s.heap cv = some ev) (l : List ListenerDesc) (writes : List (ListenerDesc × CookEvent)) :
    Conveys { s with
      mDispatchthread := d
      heap := Function.update s.heap cv none
      dispatched := s.dispatched ++ [(ev, l)]
      writes := s.writes ++ writes } := by
  rcases hs.conserved with ⟨events, hheld, hconserved⟩
  have hline : line s = cv :: (held d ++ s.reader.cv.toList) := by
    unfold line
    rw [hheldd, List.cons_append]
  have hapart := hs.apart
  rw [hline, List.nodup_cons] at hapart
  rw [hline, List.map_cons, hev] at hheld
  rcases List.map_eq_cons_iff.mp hheld.symm with ⟨ev', rest, rfl, hsome, hrest⟩
  rw [Option.some.injEq] at hsome
  subst hsome
  refine ⟨hlimit.trans hs.unlimited, hapart.2, rest, ?_, ?_⟩
  · exact (map_heap_update hapart.1 none).trans hrest.symm
  · rw [List.map_append]
    exact conserved_pop hconserved

theorem act_conveys (s : Server) (m : Move) (s' : Server) (hs : Conveys s)
    (h : act s m = some s') : Conveys s' := by
  cases act_cases h with
  | idles cookEvent iRet hend =>
      refine conveys_of_line hs rfl rfl rfl rfl rfl ?_
      rw [pending_end hend]
      exact pending_end rfl
  | reads cookEvent iRet hend hcv => exact conveys_reads hs cookEvent iRet hend hcv
  | copies cv ev hlt hcv hfree hslot => exact conveys_copies hs hlt hcv hfree hslot
  | queues cv woken d hcv hpool =>
      rcases held_addTask hs.unlimited hpool with ⟨hheld, hlimit⟩
      refine conveys_of_line hs (hlimit.trans hs.unlimited.symm) ?_ rfl rfl rfl ?_
      · simp only [line, hheld, hcv, Option.toList_none, Option.toList_some, List.append_nil]
      · simp only [pending, hcv, Option.toList_none, List.length_nil, Nat.add_zero,
          Option.toList_some, List.length_singleton]
  | executes d hpool =>
      rcases held_executeThread hpool with ⟨hheld, hlimit⟩
      refine conveys_of_line hs hlimit ?_ rfl rfl rfl rfl
      simp only [line, hheld]
  | dispatches cv ev d hworker hev hpool =>
      rcases held_finish hworker hpool with ⟨hheld, hlimit⟩
      exact conveys_dispatches hs hheld hlimit hev _ _
  | wakes d hpool =>
      rcases held_spurious hpool with ⟨hheld, hlimit⟩
      refine conveys_of_line hs hlimit ?_ rfl rfl rfl rfl
      simp only [line, hheld]
  | serves input listeners hstep => exact conveys_of_line hs rfl rfl rfl rfl rfl rfl

/-- The event is of a type the listener asked for. -/
def wants (desc : ListenerDesc) (ev : CookEvent) : Bool := ev.iType.toUInt32 &&& desc.iType ≠ 0

/-- What was written to a listener, in order. -/
def writesTo (desc : ListenerDesc) (writes : List (ListenerDesc × CookEvent)) : List CookEvent :=
  (writes.filter fun w => w.1 = desc).map Prod.snd

/-- What should have been: the events it wants of those that were dispatched
    while it was in the list. -/
def due (desc : ListenerDesc) (dispatched : List (CookEvent × List ListenerDesc)) : List CookEvent :=
  (dispatched.filter fun e => desc ∈ e.2 ∧ wants desc e.1).map Prod.fst

theorem writesTo_append (desc : ListenerDesc) (ws ws' : List (ListenerDesc × CookEvent)) :
    writesTo desc (ws ++ ws') = writesTo desc ws ++ writesTo desc ws' := by
  unfold writesTo
  rw [List.filter_append, List.map_append]

theorem due_snoc (desc : ListenerDesc) (dispatched : List (CookEvent × List ListenerDesc))
    (ev : CookEvent) (l : List ListenerDesc) :
    due desc (dispatched ++ [(ev, l)])
      = due desc dispatched ++ if desc ∈ l ∧ wants desc ev = true then [ev] else [] := by
  unfold due
  rw [List.filter_append, List.map_append, List.filter_singleton]
  by_cases h : desc ∈ l ∧ wants desc ev = true
  · rw [if_pos h, decide_eq_true h]
    rfl
  · rw [if_neg h, decide_eq_false h]
    rfl

/-- A dispatch writes the event once to every listener in the list that wants
    it, and to nobody else. -/
theorem dispatchEvent_writesTo {l : List ListenerDesc} (hl : l.Nodup) (desc : ListenerDesc)
    (ev : CookEvent) :
    writesTo desc (dispatchEvent ev l) = if desc ∈ l ∧ wants desc ev = true then [ev] else [] := by
  have hmap : writesTo desc (dispatchEvent ev l)
      = ((l.filter (wants · ev)).filter fun e => decide (e = desc)).map fun _ => ev := by
    unfold writesTo dispatchEvent
    rw [List.filter_map, List.map_map]
    rfl
  -- No record is twice in the list, so none is written to twice.
  have hcount : (l.filter (wants · ev)).count desc
      = if desc ∈ l ∧ wants desc ev = true then 1 else 0 := by
    rw [List.Nodup.count (hl.filter _)]
    simp only [List.mem_filter]
  rw [hmap, List.filter_eq, hcount]
  by_cases h : desc ∈ l ∧ wants desc ev = true
  · rw [if_pos h, if_pos h]
    rfl
  · rw [if_neg h, if_neg h]
    rfl

/-- No record is twice in the list, and every listener got what it should. -/
structure Served (s : Server) : Prop where
  housed : Housed s.listeners.manager
  served : ∀ desc, writesTo desc s.writes = due desc s.dispatched

theorem act_served (s : Server) (m : Move) (s' : Server) (hs : Served s) (h : act s m = some s') :
    Served s' := by
  cases act_cases h with
  | idles | reads | copies | queues | executes | wakes => exact ⟨hs.housed, hs.served⟩
  | dispatches cv ev d hworker hev hpool =>
      refine ⟨hs.housed, fun desc => ?_⟩
      have hnodup : s.listeners.manager.mListenerDescList.Nodup :=
        List.Nodup.of_map _ (addr_nodup hs.housed)
      simp only [writesTo_append, due_snoc, dispatchEvent_writesTo hnodup, hs.served desc]
  | serves input listeners hstep =>
      exact ⟨step_housed s.listeners input _ hs.housed hstep, hs.served⟩

/-- The reader has queued its whole batch, the queue is empty, and the worker
    has no event. -/
structure Idle (s : Server) : Prop where
  queued : s.reader.i = s.reader.iRet ∧ s.reader.cv = none
  empty : s.mDispatchthread.pool.mTasks = []
  worker : ∀ cv, s.mDispatchthread.pool.workers 0 ≠ .running cv

theorem conveys_start : Conveys Server.start :=
  ⟨rfl, List.nodup_nil, [], rfl, conserved_nil⟩

theorem served_start : Served Server.start := ⟨housed_init, fun _ => rfl⟩

/-- When nothing is on its way, everything that was read has been dispatched. -/
theorem dispatched_of_idle {s : Server} (hs : Conveys s) (hidle : Idle s) :
    s.dispatched.map Prod.fst = s.read := by
  rcases hs.conserved with ⟨events, hheld, hconserved⟩
  have hworker : inFlight (s.mDispatchthread.pool.workers 0) = [] := by
    rcases hw : s.mDispatchthread.pool.workers 0 with _ | _ | cv | _
    · rfl
    · rfl
    · exact absurd hw (hidle.worker cv)
    · rfl
  have hline : line s = [] := by
    simp only [line, held, hworker, hidle.empty, hidle.queued.2, Option.toList_none,
      List.append_nil]
  rw [hline, List.map_nil] at hheld
  rw [List.map_eq_nil_iff.mp hheld.symm, pending_end hidle.queued.1] at hconserved
  exact output_of_empty hconserved

/-- A listener that was in the list at every dispatch is due all the events it
    wants. -/
theorem due_of_registered {desc : ListenerDesc} {dispatched : List (CookEvent × List ListenerDesc)}
    (h : ∀ e ∈ dispatched, desc ∈ e.2) :
    due desc dispatched = (dispatched.map Prod.fst).filter (wants desc) := by
  unfold due
  rw [List.filter_map]
  congr 1
  refine List.filter_congr fun e he => ?_
  simp only [h e he, true_and, Function.comp_apply, Bool.decide_eq_true]

/-- In every run, what is written to a listener are the events it wants of those
    dispatched while it was in the list, each once, in the order in which they
    were read. A listener that was in the list at every dispatch has got a
    prefix of all the events read that it wants, and all of them once nothing is
    on its way. -/
theorem delivered_in_order (moves : List Move) (s : Server)
    (hrun : run act Server.start moves = some s) :
    (∀ desc, writesTo desc s.writes = due desc s.dispatched) ∧
      s.dispatched.map Prod.fst <+: s.read ∧
      ∀ desc, (∀ e ∈ s.dispatched, desc ∈ e.2) →
        writesTo desc s.writes <+: s.read.filter (wants desc) ∧
          (Idle s → writesTo desc s.writes = s.read.filter (wants desc)) := by
  have hconveys := run_invariant act Conveys act_conveys _ s moves conveys_start hrun
  have hserved := run_invariant act Served act_served _ s moves served_start hrun
  rcases hconveys.conserved with ⟨events, _, hconserved⟩
  refine ⟨hserved.served, prefix_of_conserved hconserved, fun desc hregistered => ?_⟩
  rw [hserved.served desc, due_of_registered hregistered]
  refine ⟨prefix_of_conserved (conserved_filter hconserved _), fun hidle => ?_⟩
  rw [dispatched_of_idle hconveys hidle]

/-- An event of a type at a position. -/
def eventAt (iType iX : Int32) : CookEvent :=
  { tTime := ⟨0, 0⟩, filePath := 0, iType, iX, iY := 0, iKey := 0, iPressure := 0, iTrackID := 0,
    iTouchMajor := 0 }

/-- The listener that such a request adds first. -/
def touchListener : ListenerDesc :=
  { addr := 0x8000, iType := 1, iUid := 1, iFd := 10, pcName := some 0x4020, iHandle := 5,
    death := 0x8100 }

/-- Two batches, the second read while the last event of the first is still in
    the queue. -/
def twoBatches : List Move :=
  [.serve (additionOf 1 5 10), .readOnce [eventAt 1 3, eventAt 256 0] 2, .copy 0x100,
    .addTask none, .copy 0x200, .executeThread, .addTask none, .dispatchEvent,
    .readOnce [eventAt 1 4, eventAt 256 0] 1, .copy 0x100, .executeThread, .addTask none,
    .dispatchEvent, .executeThread, .dispatchEvent]

theorem delivered_in_order_sample :
    ∃ s, run act Server.start twoBatches = some s ∧ s.dispatched.length = 3 ∧
      (∀ e ∈ s.dispatched, touchListener ∈ e.2) ∧
        writesTo touchListener s.writes = [eventAt 1 3, eventAt 1 4] := by
  have hparts : (run act Server.start twoBatches).map
      (fun s => (s.read, s.dispatched))
      = some ([eventAt 1 3, eventAt 256 0, eventAt 1 4],
          [(eventAt 1 3, [touchListener]), (eventAt 256 0, [touchListener]),
            (eventAt 1 4, [touchListener])]) := by decide +kernel
  have hidle : (run act Server.start twoBatches).map
      (fun s => (s.reader.i, s.reader.iRet, s.reader.cv, s.mDispatchthread.pool.mTasks,
        s.mDispatchthread.pool.workers 0)) = some (1, 1, none, [], .ready) := by decide +kernel
  rcases Option.map_eq_some_iff.mp hparts with ⟨s, hrun, hparts⟩
  rw [hrun, Option.map_some, Option.some.injEq] at hidle
  rcases Prod.mk.inj hparts with ⟨hread, hdispatched⟩
  rcases Prod.mk.inj hidle with ⟨hi, hidle⟩
  rcases Prod.mk.inj hidle with ⟨hiRet, hidle⟩
  rcases Prod.mk.inj hidle with ⟨hcv, hidle⟩
  rcases Prod.mk.inj hidle with ⟨htasks, hworker⟩
  have hregistered : ∀ e ∈ s.dispatched, touchListener ∈ e.2 := by
    rw [hdispatched]
    decide
  have hall := ((delivered_in_order twoBatches s hrun).2.2 _ hregistered).2
    ⟨⟨hi.trans hiRet.symm, hcv⟩, htasks, fun cv hcv => by
      rw [hworker] at hcv
      cases hcv⟩
  refine ⟨s, hrun, by rw [hdispatched]; rfl, hregistered, ?_⟩
  rw [hall, hread]
  decide

end InputManager

end ZeusOS
