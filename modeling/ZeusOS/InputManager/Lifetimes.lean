import ZeusOS.Binder.Confined
import ZeusOS.Binder.Stream
import ZeusOS.InputManager.Listeners
import ZeusOS.ServiceManager.Names

/-!
# The Names of Listeners

A listener's name is not copied. The record keeps the pointer that was read
from the message, and the message is given back to the driver by the reply to
it, before the next command is taken. From then on the driver may put another
message in its place; what is printed when the listener dies is whatever is
there by then.

There is no listener this spares: a record gets into the list only with a
handle, the handle is read from an object behind the name, and so the name was
there and lies in the message. `names_kept_iff` puts that over whole runs.

## Main definitions

* `Process`, `Delivery`, `Process.step`: The manager, command by command, with
  the buffers that were given back.
* `Process.Freed`: The places a freed buffer covered.
* `Process.Sound`: No record points there, and names are printed as they came.
* `Accepts`: A listener is added.

## Theorems

* `execute_deliveries`: The parser takes these steps.
* `accepted_name`: Where the name of a listener lies.
* `names_kept_iff`: When nothing dangles.
-/

namespace ZeusOS

namespace InputManager

open Foundation.Words Foundation.Runs Binder
open ServiceManager (Allocator upToZero)

/-- What the system has to offer while a command is carried out, and what the
    memory holds then. -/
structure Means where
  alloc : Allocator
  dup : UInt32 → Int32
  io : IoData
  mem : Mapping

/-- A transaction or a death, as it comes out of a read. -/
inductive Delivery where
  | transaction (m : Means) (txn : Txn)
  | deadBinder (m : Means) (cookie : UInt32)

/-- The manager, the messages taken so far, the buffers given back so far, the
    name every listener came with, and the names printed so far, each beside
    the one the listener came with. -/
structure Process where
  manager : BnInputManager
  received : List Txn
  freed : List UInt32
  carried : ListenerDesc → List UInt8
  printed : List (List UInt8 × List UInt8)

def Process.init : Process :=
  { manager := { mListenerDescList := [], heap := [], log := [] }
    received := []
    freed := []
    carried := fun _ => []
    printed := [] }

/-- The buffers some events give back. -/
def givenBack (evs : List Event) : List UInt32 :=
  evs.filterMap fun
    | .wrote (.freeBuffer buffer) => some buffer
    | _ => none

/-- The name at a pointer into a message, in the message. -/
def nameCarried (mem : Mapping) (txn : Txn) (desc : ListenerDesc) : List UInt8 :=
  desc.pcName.elim [] fun ptr =>
    upToZero ((mem.bytes txn.buffer).drop (ptr - txn.buffer).toNat)

/-- What `%s` prints for the pointer. -/
def namePrinted (mem : Mapping) (desc : ListenerDesc) : List UInt8 :=
  desc.pcName.elim [] fun ptr => upToZero (mem.bytes ptr)

/-- One command, carried out by the parser of a process with the input manager
    at `this`. -/
def Process.step (this : UInt32) (p : Process) : Delivery → Option Process
  | .transaction m txn =>
    (perform (services m.alloc m.dup m.io this) m.mem (Looper.start none p.manager)
      (.transaction txn)).map fun (evs, l) =>
        { p with
          manager := l.state
          received := p.received ++ [txn]
          freed := p.freed ++ givenBack evs
          -- Whoever is in the list now and was not before came with this message.
          carried := fun desc =>
            if desc ∈ p.manager.mListenerDescList then p.carried desc
            else nameCarried m.mem txn desc }
  | .deadBinder m cookie =>
    (perform (services m.alloc m.dup m.io this) m.mem (Looper.start none p.manager)
      (.deadBinder cookie)).map fun (evs, l) =>
        { p with
          manager := l.state
          freed := p.freed ++ givenBack evs
          -- The callback prints before it looks at the record.
          printed := p.printed ++
            ((p.manager.mListenerDescList.find? fun desc => desc.death = cookie).map fun desc =>
              (namePrinted m.mem desc, p.carried desc)).toList }

/-- A place in a message that was given back. -/
def Process.Freed (p : Process) (ptr : UInt32) : Prop :=
  ∃ txn ∈ p.received, txn.buffer ∈ p.freed ∧
    ∃ off < txn.dataSize.toNat, ptr = txn.buffer + UInt32.ofNat off

/-- The fields of a record that are pointers. -/
def ListenerDesc.pointers (desc : ListenerDesc) : List UInt32 := desc.pcName.toList ++ [desc.death]

/-- No record points into a message that was given back, and every name that was
    printed is the one its listener came with. -/
structure Process.Sound (p : Process) : Prop where
  kept : ∀ desc ∈ p.manager.mListenerDescList, ∀ ptr ∈ desc.pointers, ¬ p.Freed ptr
  printed : ∀ e ∈ p.printed, e.1 = e.2

/-- A request for a listener that gets into the list. -/
def Accepts (this : UInt32) (p : Process) : Delivery → Prop
  | .transaction m txn => txn.target ≠ 0 ∧ txn.target = this ∧ ∃ req addr death,
      Adding m.alloc txn (Parcel.bioInitFromTxn m.mem txn) p.manager req addr death ∧
        req.iHandle ≠ 0
  | .deadBinder _ _ => False

/-- The means a command is met with. -/
def Delivery.means : Delivery → Means
  | .transaction m _ => m
  | .deadBinder m _ => m

/-- The command it is read as. -/
def Delivery.command : Delivery → Return
  | .transaction _ txn => .transaction txn
  | .deadBinder _ cookie => .deadBinder cookie

/-- The parser, handed some commands, takes the steps of the process one after
    the other. -/
theorem execute_deliveries (this : UInt32) (m : Means) (ds : List Delivery)
    (hmeans : ∀ d ∈ ds, d.means = m) (l : Looper BnInputManager) (p : Process)
    (hp : p.manager = l.state) :
    (execute (services m.alloc m.dup m.io this) m.mem (ds.map Delivery.command) l).map
        (fun r => r.2.state)
      = (run (Process.step this) p ds).map Process.manager := by
  induction ds generalizing l p with
  | nil =>
      rw [run_nil, Option.map_some, hp]
      rfl
  | cons d ds ih =>
      have hrest : ∀ d ∈ ds, d.means = m := fun d hd => hmeans d (List.mem_cons_of_mem _ hd)
      have hd := hmeans d List.mem_cons_self
      cases d with
      | transaction m' txn =>
          have hsame : m' = m := hd
          subst hsame
          simp only [List.map_cons, Delivery.command, execute, Return.action, perform, run_cons,
            Process.step, Looper.start, hp, Option.map_map, Option.bind_map, Option.map_bind]
          congr 1
          funext res
          simp only [Function.comp_apply, Option.map_map]
          exact ih hrest _ _ rfl
      | deadBinder m' cookie =>
          have hsame : m' = m := hd
          subst hsame
          simp only [List.map_cons, Delivery.command, execute, Return.action, perform, run_cons,
            Process.step, Looper.start, hp, Option.map_map, Option.bind_map, Option.map_bind]
          congr 1
          funext res
          simp only [Function.comp_apply, Option.map_map]
          exact ih hrest _ _ rfl

theorem givenBack_transaction (txn : Txn) (h : Handled BnInputManager) :
    givenBack (transactionEvents txn h) = [txn.buffer] := by
  have hrefs : (refEvents h.writes).filterMap (fun
      | .wrote (.freeBuffer buffer) => some buffer
      | _ => none) = [] := by
    rw [refEvents, List.filterMap_map]
    exact List.filterMap_eq_nil_iff.mpr fun _ _ => rfl
  have hcons : transactionEvents txn h = [.transaction txn] ++ (refEvents h.writes
      ++ (.handled txn h.status h.reply :: (binderSendReply h.reply txn.buffer h.status).map .wrote)) :=
    rfl
  rw [givenBack, hcons, List.filterMap_append, List.filterMap_append, hrefs]
  rfl

/-- An object that was read behind a string lies behind it in the message, so the
    string was there. -/
theorem string_before_object {mem : Mapping} {txn : Txn} {p q q' : Parcel} {ptr : Option Nat}
    {len v : UInt32} (h : Confined mem txn p) (hstring : p.getString8 = some ((ptr, len), q))
    (href : q.getRef = some (v, q')) (hne : v ≠ 0) :
    ∃ off, ptr = some off ∧ off < txn.dataSize.toNat := by
  have hq := (getString_confined (by decide) h hstring).1
  have hextent := hq.extent
  -- There was room for the object behind the string.
  have hroom : 16 ≤ q.room.toNat := by
    rcases getObjOf_cases href with ⟨obj, hobj, hvalue⟩
    rcases hvalue hne with ⟨off, rfl, _⟩
    rcases getObj_cases hobj with ⟨hnone, _⟩ | ⟨_, _, hroom, _⟩
    · cases hnone
    · exact UInt32.le_iff_toNat_le.mp hroom
  rcases getString_cases hstring with ⟨q₀, _, hget⟩
  rcases get_cases q₀ ((len + 1) * 1) with ⟨_, hfails⟩ | ⟨_, hfits⟩
  · -- A string that did not fit leaves no room.
    rw [hfails, Prod.mk.injEq] at hget
    rw [← hget.2, exhausted_room] at hroom
    exact absurd hroom (by decide)
  · rw [hfits, Prod.mk.injEq] at hget
    rw [← hget.2] at hextent hroom
    refine ⟨q₀.data, hget.1.symm, ?_⟩
    have hdata : q₀.data ≤ (q₀.advance (Parcel.alignSize ((len + 1) * 1))).data :=
      Nat.le_add_right _ _
    omega

/-- The name of a listener that gets into the list is a pointer into its
    message. -/
theorem accepted_name {alloc : Allocator} {mem : Mapping} {txn : Txn} {m : BnInputManager}
    {req : AddRequest} {addr death : UInt32}
    (h : Adding alloc txn (Parcel.bioInitFromTxn mem txn) m req addr death)
    (hne : req.iHandle ≠ 0) :
    ∃ off < txn.dataSize.toNat, req.pcName = some (txn.buffer + UInt32.ofNat off) := by
  rcases h.read with ⟨msg, hpolicy, hread⟩
  simp only [readAddListener, Option.bind_eq_some_iff, Option.map_eq_some_iff] at hread
  rcases hread with ⟨⟨_, p₁⟩, htype, ⟨_, p₂⟩, huid, ⟨_, p₃⟩, hfd, ⟨⟨ptr, _⟩, p₄⟩, hname,
    ⟨handle, p₅⟩, href, rfl⟩
  have h₀ := (getUint32_confined (init_confined mem txn) hpolicy).1
  have h₁ := (getUint32_confined h₀ htype).1
  have h₂ := (getUint32_confined h₁ huid).1
  have h₃ := (getObjOf_confined h₂ hfd).1
  have h₄ := (getString_confined (by decide) h₃ hname).1
  have h₅ := (getObjOf_confined h₄ href).1
  rcases string_before_object h₃ hname href hne with ⟨off, rfl, hoff⟩
  refine ⟨off, hoff, ?_⟩
  simp only [Option.map_some, h₅.start]

/-- Nobody was ever added, so nobody can have died. -/
structure Process.Empty (p : Process) : Prop where
  listeners : p.manager.mListenerDescList = []
  printed : p.printed = []

theorem sound_of_empty {p : Process} (h : p.Empty) : p.Sound := by
  refine ⟨fun desc hdesc => ?_, fun e he => ?_⟩
  · rw [h.listeners] at hdesc
    exact absurd hdesc List.not_mem_nil
  · rw [h.printed] at he
    exact absurd he List.not_mem_nil

/-- A transaction that is handled at all is one for the input manager. -/
theorem transaction_handled {this : UInt32} {m : Means} {txn : Txn} {msg reply : Parcel}
    {manager : BnInputManager} {res : Handled BnInputManager}
    (h : Binder.onTransact (services m.alloc m.dup m.io this) txn txn msg reply manager
      = some res) :
    txn.target ≠ 0 ∧ txn.target = this ∧ onTransact m.alloc m.dup txn msg reply manager = some res := by
  unfold Binder.onTransact at h
  by_cases hne : txn.target ≠ 0
  · rw [if_pos hne] at h
    by_cases htarget : txn.target = this
    · simp only [services, if_pos htarget] at h
      exact ⟨hne, htarget, h⟩
    · simp only [services, if_neg htarget, reduceCtorEq] at h
  · rw [if_neg hne] at h
    cases h

theorem step_empty (this : UInt32) (p : Process) (d : Delivery) (p' : Process) (hp : p.Empty)
    (hd : ¬ Accepts this p d) (h : p.step this d = some p') : p'.Empty := by
  cases d with
  | deadBinder m cookie =>
      -- There is no record for the cookie to lead to.
      have hnone : (services m.alloc m.dup m.io this).binderDeath cookie p.manager = none := by
        change binderDeath cookie p.manager = none
        rw [binderDeath, hp.listeners]
        rfl
      simp only [Process.step, perform, Looper.start, hnone, Option.map_none, reduceCtorEq] at h
  | transaction m txn =>
      simp only [Process.step, perform, Looper.start, Option.map_map, Option.map_eq_some_iff] at h
      rcases h with ⟨res, hres, rfl⟩
      rcases transaction_handled hres with ⟨hne, htarget, hres⟩
      refine ⟨?_, hp.printed⟩
      have hcases := onTransact_cases hres
      change res.state.mListenerDescList = []
      generalize res.state = manager at hcases ⊢
      generalize res.writes = writes at hcases
      cases hcases with
      | unchanged => exact hp.listeners
      | adding req addr death hadding =>
          by_cases hhandle : req.iHandle = 0
          · have hdesc : (req.desc m.dup addr death).iHandle = 0 := hhandle
            rw [addListener_rejected _ hdesc]
            exact hp.listeners
          · exact absurd ⟨hne, htarget, req, addr, death, hadding, hhandle⟩ hd
      | deleting iUid hdeleting =>
          -- There is nobody to delete.
          have hdel : delListener iUid p.manager = (-1, [], p.manager) := by
            rw [delListener, hp.listeners]
            rfl
          rw [hdel]
          exact hp.listeners

/-- The buffer of a transaction for the input manager is given back with the
    answer. -/
theorem step_transaction {this : UInt32} {m : Means} {txn : Txn} {p : Process}
    {res : Handled BnInputManager} (hne : txn.target ≠ 0) (htarget : txn.target = this)
    (hres : onTransact m.alloc m.dup txn (Parcel.bioInitFromTxn m.mem txn) (Parcel.new m.io) p.manager
      = some res) :
    ∃ p', p.step this (.transaction m txn) = some p' ∧ p'.manager = res.state ∧
      p'.received = p.received ++ [txn] ∧ p'.freed = p.freed ++ [txn.buffer] := by
  have hserved : Binder.onTransact (services m.alloc m.dup m.io this) txn txn
      (Parcel.bioInitFromTxn m.mem txn) (Parcel.new m.io) p.manager = some res := by
    rw [Binder.onTransact, if_pos hne]
    simp only [services, if_pos htarget, hres]
  have hperform : perform (services m.alloc m.dup m.io this) m.mem (Looper.start none p.manager)
      (.transaction txn) = some (transactionEvents txn res,
        { Looper.start none p.manager with state := res.state }) := by
    change (Binder.onTransact _ txn txn _ (Parcel.new m.io) p.manager).map _ = _
    rw [hserved]
    rfl
  refine ⟨_, by rw [Process.step, hperform]; rfl, rfl, rfl, ?_⟩
  simp only [givenBack_transaction]

/-- A listener that is added points into a message that has been given back by
    the time the next command is taken. -/
theorem step_dangles (this : UInt32) (p : Process) (d : Delivery) (hd : Accepts this p d) :
    ∃ p', p.step this d = some p' ∧ ¬ p'.Sound := by
  cases d with
  | deadBinder m cookie => exact hd.elim
  | transaction m txn =>
      rcases hd with ⟨hne, htarget, req, addr, death, hadding, hhandle⟩
      have hdesc : (req.desc m.dup addr death).iHandle ≠ 0 := hhandle
      rcases onTransact_adding m.dup m.io hadding with ⟨res, hres, _, hstate⟩
      rw [addListener_listed _ hdesc] at hstate
      rcases step_transaction hne htarget hres with ⟨p', hstep, hmanager, hreceived, hfreed⟩
      rcases accepted_name hadding hhandle with ⟨off, hoff, hname⟩
      refine ⟨p', hstep, fun hsound => ?_⟩
      have hmem : req.desc m.dup addr death ∈ p'.manager.mListenerDescList := by
        rw [hmanager, hstate]
        exact List.mem_append_right _ (List.mem_singleton_self _)
      have hpointer : txn.buffer + UInt32.ofNat off ∈ (req.desc m.dup addr death).pointers := by
        refine List.mem_append_left _ ?_
        rw [AddRequest.desc, hname]
        exact List.mem_singleton_self _
      refine hsound.kept _ hmem _ hpointer ⟨txn, ?_, ?_, off, hoff, rfl⟩
      · rw [hreceived]
        exact List.mem_append_right _ (List.mem_singleton_self _)
      · rw [hfreed]
        exact List.mem_append_right _ (List.mem_singleton_self _)

/-- In every run of transactions and deaths, whatever the memory holds when a
    command is carried out: no record points into a message that was given back,
    in any state between two commands, and every name printed is the one that
    came with the listener, exactly if no request for a listener is accepted. -/
theorem names_kept_iff (this : UInt32) (ds : List Delivery) :
    Always (Process.step this) Process.Sound Process.init ds ↔
      Along (Process.step this) (fun p d => ¬ Accepts this p d) Process.init ds :=
  always_iff_along_of (Process.step this) Process.Empty Process.Sound
    (fun p d => ¬ Accepts this p d) (fun _ hp => sound_of_empty hp)
    (fun p d p' hp hd h => step_empty this p d p' hp hd h)
    (fun p d _ hd => step_dangles this p d (not_not.mp hd)) Process.init ds ⟨rfl, rfl⟩

/-- What a command is met with while the memory holds this message. -/
def meansWith (bytes : List UInt8) (offsets : List UInt32) : Means :=
  { alloc := ServiceManager.blocks, dup := fun _ => 10, io := ServiceManager.zeroIo,
    mem := requestMemory bytes offsets }

/-- A listener with the name `a` is added, another message comes to lie in the
    same place, and by the time the listener dies the letter there is `b`. -/
def reusedRun : List Delivery :=
  [.transaction (meansWith (additionBytes 1 5) [12, 36])
      (requestTxn Frameworks.inputManagerAddListener (additionBytes 1 5) [12, 36]),
    .transaction (meansWith (deletionBytes 9) [])
      (requestTxn Frameworks.inputManagerDelListener (deletionBytes 9) []),
    .deadBinder (meansWith [0x62, 0] []) 0x8100]

/-- Its name is printed as `b`. -/
theorem name_reused : ¬ ∀ (this : UInt32) (ds : List Delivery) (p : Process),
    run (Process.step this) Process.init ds = some p → p.Sound := by
  intro h
  have hprinted : (run (Process.step 0x9000) Process.init reusedRun).map Process.printed
      = some [([0x62], [0x61])] := by decide +kernel
  rcases Option.map_eq_some_iff.mp hprinted with ⟨p, hrun, hprinted⟩
  have hsame := (h _ _ p hrun).printed ([0x62], [0x61])
    (by rw [hprinted]; exact List.mem_singleton_self _)
  exact absurd hsame (by decide)

end InputManager

end ZeusOS
