import ZeusOS.InputManager.Outcomes
import ZeusOS.ServiceManager.Registry

/-!
# Runs of the Input Manager

The input manager against arbitrary senders: transactions with any bytes in
them, mixed with death callbacks on the listeners there are. Besides the
manager, the state keeps what was written to the driver, and for every listener
the message it came with.

References and memory come out right in every run. A listener is added, deleted
or dies; the first takes a reference and the other two give it back with the
memory. `Moved` is that one fact for all three.

Descriptors do not. Every request to add a listener duplicates one, and nothing
ever closes it, whether the request is turned down or the listener leaves.

## Main definitions

* `State`, `Input`, `step`: The machine.
* `Moved`: References and records follow the list.
* `Settled`: Every reference is a listener's, every record is freed once.

## Theorems

* `step_housed`: Records stay apart.
* `transacted_moved`, `discard_moved`: What a step moves.
* `listeners_balance`: References and records in every run.
-/

namespace ZeusOS

namespace InputManager

open Foundation.Words Foundation.Runs Binder
open ServiceManager (Allocator references references_append)
open Frameworks (inputManagerAddListener inputManagerDelListener)

/-- The records put into the list. -/
def pushed (log : List Deed) : List ListenerDesc :=
  log.filterMap fun
    | .pushed desc => some desc
    | _ => none

/-- The records freed. -/
def freed (log : List Deed) : List ListenerDesc :=
  log.filterMap fun
    | .freed desc => some desc
    | _ => none

/-- The message a listener came with, and what was done while it was handled. -/
structure Origin where
  mem : Mapping
  txn : Txn
  deeds : List Deed

/-- The manager, the reference commands written so far, and the origins of the
    listeners. -/
structure State where
  manager : BnInputManager
  written : List RefCommand
  own : ListenerDesc → Option Origin

/-- An empty list and nothing said yet. -/
def State.init : State :=
  { manager := { mListenerDescList := [], heap := [], log := [] }, written := [], own := fun _ => none }

/-- What comes in: a transaction, with whatever the system has to offer for it,
    or the death a cookie stands for. -/
inductive Input where
  | transact (alloc : Allocator) (dup : UInt32 → Int32) (mem : Mapping) (txn : Txn) (io : IoData)
  | death (cookie : UInt32)

def step (s : State) : Input → Option State
  | .transact alloc dup mem txn io =>
    (onTransact alloc dup txn (Parcel.bioInitFromTxn mem txn) (Parcel.new io) s.manager).map fun h =>
      { manager := h.state
        written := s.written ++ h.writes
        -- Whoever is in the list now and was not before came with this message.
        own := fun desc =>
          if desc ∈ s.manager.mListenerDescList then s.own desc
          else some ⟨mem, txn, h.state.log.drop s.manager.log.length⟩ }
  | .death cookie =>
    (binderDeath cookie s.manager).map fun (writes, manager) =>
      { s with manager, written := s.written ++ writes }

theorem step_housed (s : State) (i : Input) (s' : State) (hs : Housed s.manager)
    (h : step s i = some s') : Housed s'.manager := by
  cases i with
  | transact alloc dup mem txn io =>
      simp only [step, Option.map_eq_some_iff] at h
      rcases h with ⟨res, hres, rfl⟩
      exact housed_transacted hs (onTransact_cases hres)
  | death cookie =>
      simp only [step, Option.map_eq_some_iff] at h
      rcases h with ⟨_, hdeath, rfl⟩
      rcases binderDeath_cases hdeath with ⟨desc, hmem, _, rfl⟩
      rw [inputBinderDeath_housed hs hmem]
      exact housed_discard hs hmem

theorem housed_init : Housed State.init.manager :=
  ⟨List.nodup_nil, List.Subperm.refl _, fun _ hdesc => absurd hdesc List.not_mem_nil⟩

/-- The listeners with a handle. -/
def listeners (l : List ListenerDesc) (handle : UInt32) : Nat :=
  l.countP fun desc => desc.iHandle == handle

theorem listeners_cons (desc : ListenerDesc) (l : List ListenerDesc) (h : UInt32) :
    listeners (desc :: l) h = listeners l h + if desc.iHandle = h then 1 else 0 := by
  simp only [listeners, List.countP_cons, beq_iff_eq]

/-- Between two states of the manager the references follow the listeners, and
    the records that were pushed and not freed are those that have come to the
    list and not left it. -/
structure Moved (m : BnInputManager) (writes : List RefCommand) (m' : BnInputManager) : Prop where
  references : ∀ h, (listeners m'.mListenerDescList h : Int)
    = listeners m.mListenerDescList h + references writes h
  records : ∃ deeds, m'.log = m.log ++ deeds ∧
    (freed deeds ++ m'.mListenerDescList).Perm (pushed deeds ++ m.mListenerDescList)

theorem references_release (handle h : UInt32) :
    references [.release handle] h = -((if handle = h then 1 else 0 : Nat) : Int) := by
  unfold references
  by_cases heq : handle = h
  · simp [heq]
  · simp [heq]

theorem references_listed (handle cookie h : UInt32) :
    references [.acquire handle, .requestDeathNotification handle cookie] h
      = ((if handle = h then 1 else 0 : Nat) : Int) := by
  unfold references
  by_cases heq : handle = h
  · simp [heq]
  · simp [heq]

/-- A listener that leaves takes one reference and its record along. -/
theorem discard_moved {m : BnInputManager} (hm : Housed m) {desc : ListenerDesc}
    (hmem : desc ∈ m.mListenerDescList) : Moved m (m.discard desc).1 (m.discard desc).2 := by
  have hperm := remove_perm hm hmem
  refine ⟨fun h => ?_, [.freed desc], rfl, hperm.symm⟩
  have hcount : listeners m.mListenerDescList h
      = listeners (remove desc m.mListenerDescList) h + if desc.iHandle = h then 1 else 0 := by
    rw [← listeners_cons]
    exact hperm.countP_eq _
  simp only [BnInputManager.discard, references_release]
  omega

theorem prepare_moved {m : BnInputManager} {dup : UInt32 → Int32} {req : AddRequest}
    {addr death : UInt32} :
    Moved m (addListener (req.desc dup addr death) (m.prepare dup req addr death)).2.1
      (addListener (req.desc dup addr death) (m.prepare dup req addr death)).2.2 := by
  by_cases hzero : (req.desc dup addr death).iHandle = 0
  · -- A request that is turned down has only duplicated a descriptor.
    rw [addListener_rejected _ hzero]
    exact ⟨fun h => (Int.add_zero _).symm, [.dup req.fd (dup req.fd)], rfl, List.Perm.refl _⟩
  · rw [addListener_listed _ hzero]
    refine ⟨fun h => ?_, [.dup req.fd (dup req.fd), .pushed (req.desc dup addr death)], ?_, ?_⟩
    · simp only [references_listed, BnInputManager.prepare, listeners, List.countP_append,
        List.countP_singleton, beq_iff_eq]
      omega
    · simp only [BnInputManager.prepare, List.append_assoc, List.singleton_append]
    · exact List.perm_append_singleton _ _

theorem transacted_moved {alloc : Allocator} {dup : UInt32 → Int32} {txn : Txn} {msg : Parcel}
    {m m' : BnInputManager} {writes : List RefCommand} (hm : Housed m)
    (h : Transacted alloc dup txn msg m writes m') : Moved m writes m' := by
  have hsame : Moved m [] m :=
    ⟨fun h => (Int.add_zero _).symm, [], (List.append_nil _).symm, List.Perm.refl _⟩
  cases h with
  | unchanged => exact hsame
  | adding req addr death _ => exact prepare_moved
  | deleting iUid _ =>
      rcases delListener_cases iUid m with ⟨_, hdel⟩ | ⟨desc, _, hmem, _, hdel⟩
      · rw [hdel]
        exact hsame
      · rw [hdel]
        exact discard_moved hm hmem

/-- Every step moves references and records together. -/
theorem step_moved (s : State) (i : Input) (s' : State) (hs : Housed s.manager)
    (h : step s i = some s') :
    ∃ writes, s'.written = s.written ++ writes ∧ Moved s.manager writes s'.manager := by
  cases i with
  | transact alloc dup mem txn io =>
      simp only [step, Option.map_eq_some_iff] at h
      rcases h with ⟨res, hres, rfl⟩
      exact ⟨res.writes, rfl, transacted_moved hs (onTransact_cases hres)⟩
  | death cookie =>
      simp only [step, Option.map_eq_some_iff] at h
      rcases h with ⟨_, hdeath, rfl⟩
      rcases binderDeath_cases hdeath with ⟨desc, hmem, _, rfl⟩
      rw [inputBinderDeath_housed hs hmem]
      exact ⟨_, rfl, discard_moved hs hmem⟩

/-- Every reference is a listener's, and every record that was in the list is
    in it still or has been freed, not both and not twice. -/
structure Settled (s : State) : Prop where
  housed : Housed s.manager
  references : ∀ h, references s.written h = listeners s.manager.mListenerDescList h
  records : (freed s.manager.log ++ s.manager.mListenerDescList).Perm (pushed s.manager.log)

theorem step_settled (s : State) (i : Input) (s' : State) (hs : Settled s)
    (h : step s i = some s') : Settled s' := by
  rcases step_moved s i s' hs.housed h with ⟨writes, hwritten, hrefs, deeds, hlog, hrecords⟩
  refine ⟨step_housed s i s' hs.housed h, fun handle => ?_, ?_⟩
  · rw [hwritten, references_append, hs.references, hrefs]
  · have hfreed : freed s'.manager.log = freed s.manager.log ++ freed deeds := by
      rw [hlog]
      exact List.filterMap_append
    have hpushed : pushed s'.manager.log = pushed s.manager.log ++ pushed deeds := by
      rw [hlog]
      exact List.filterMap_append
    -- What this step frees leaves the list, and what it pushes comes to it.
    calc freed s'.manager.log ++ s'.manager.mListenerDescList
        = freed s.manager.log ++ (freed deeds ++ s'.manager.mListenerDescList) := by
          rw [hfreed, List.append_assoc]
      _ |>.Perm (freed s.manager.log ++ (pushed deeds ++ s.manager.mListenerDescList)) :=
          hrecords.append_left _
      _ |>.Perm (pushed deeds ++ (freed s.manager.log ++ s.manager.mListenerDescList)) :=
          List.perm_append_comm_assoc _ _ _
      _ |>.Perm (pushed deeds ++ pushed s.manager.log) := hs.records.append_left _
      _ |>.Perm (pushed s'.manager.log) := by
          rw [hpushed]
          exact List.perm_append_comm

theorem settled_init : Settled State.init :=
  ⟨housed_init, fun _ => rfl, List.Perm.refl _⟩

/-- In every run the references taken on a handle and not given back are as
    many as the listeners with that handle, and the records that were put into
    the list are those in it and those freed, each once. -/
theorem listeners_balance (inputs : List Input) (s : State)
    (hrun : run step State.init inputs = some s) :
    (∀ handle, handle ≠ 0 →
      (s.written.count (.acquire handle) : Int) - s.written.count (.release handle)
        = s.manager.mListenerDescList.countP fun desc => desc.iHandle == handle) ∧
      (freed s.manager.log ++ s.manager.mListenerDescList).Perm (pushed s.manager.log) := by
  have hsettled := run_invariant step Settled step_settled State.init s inputs settled_init hrun
  exact ⟨fun handle _ => hsettled.references handle, hsettled.records⟩

/-- A message with this payload and these offsets. -/
def requestMemory (bytes : List UInt8) (offsets : List UInt32) : Mapping :=
  { bytes := fun _ => bytes, words := fun _ => offsets }

def requestTxn (code : UInt32) (bytes : List UInt8) (offsets : List UInt32) : Txn :=
  { target := 0x9000, cookie := 0, code, flags := 0, senderPid := 1, senderEuid := 0,
    dataSize := UInt32.ofNat bytes.length, offsetsSize := UInt32.ofNat (4 * offsets.length),
    buffer := 0x4000, offsets := 0x5000 }

/-- A request for a listener of touches with a one-letter name. -/
def additionBytes (iUid handle : UInt32) : List UInt8 :=
  le32 0 ++ le32 1 ++ le32 iUid ++ Parcel.flatObject binderTypeFd 9 ++ le32 1 ++ [0x61, 0, 0, 0]
    ++ Parcel.flatObject binderTypeHandle handle

def deletionBytes (iUid : UInt32) : List UInt8 := le32 0 ++ le32 iUid

/-- Such a request, its descriptor duplicated as `iFd`. -/
def additionOf (iUid handle : UInt32) (iFd : Int32) : Input :=
  .transact ServiceManager.blocks (fun _ => iFd) (requestMemory (additionBytes iUid handle) [12, 36])
    (requestTxn inputManagerAddListener (additionBytes iUid handle) [12, 36]) ServiceManager.zeroIo

def deletionOf (iUid : UInt32) : Input :=
  .transact ServiceManager.blocks (fun _ => -1) (requestMemory (deletionBytes iUid) [])
    (requestTxn inputManagerDelListener (deletionBytes iUid) []) ServiceManager.zeroIo

/-- Two listeners of one handle, of which one is deleted and the other dies. -/
theorem listeners_balance_sample :
    ∃ s, run step State.init
        [additionOf 1 5 10, additionOf 2 5 11, deletionOf 1, .death 0x8300] = some s ∧
      s.written.length = 6 ∧ (pushed s.manager.log).length = 2 ∧
        (s.written.count (.acquire 5) : Int) - s.written.count (.release 5)
          = s.manager.mListenerDescList.countP fun desc => desc.iHandle == 5 := by
  have hlen : (run step State.init
      [additionOf 1 5 10, additionOf 2 5 11, deletionOf 1, .death 0x8300]).map
      (fun s => (s.written.length, (pushed s.manager.log).length)) = some (6, 2) := by
    decide +kernel
  rcases Option.map_eq_some_iff.mp hlen with ⟨s, hrun, hlen⟩
  rcases Prod.mk.inj hlen with ⟨hwritten, hpushed⟩
  exact ⟨s, hrun, hwritten, hpushed, (listeners_balance _ s hrun).1 5 (by decide)⟩

end InputManager

end ZeusOS
