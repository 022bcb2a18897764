import ZeusOS.Binder.Inspect
import ZeusOS.InputManager.Listeners

/-!
# The Descriptor Ledger

What becomes of the descriptors the input manager duplicates. What should be
the case is that they are those of the listeners, one each, and that each is a
duplicate of one the listener's own message carried.

A request may be turned down after its descriptor has been duplicated, and then
nobody has it. A listener that is deleted or dies takes its record along and
leaves its descriptor open. And `getFd` answers zero for an object that is no
descriptor, which is a descriptor like any other, so that a listener may end up
with a duplicate of the manager's own standard input.

So the ledger is right only as long as nothing of this happens, and it is never
right again afterwards by itself; `ledger_iff` says that there is no other way
to get it wrong.

## Main definitions

* `opened`: The descriptors that were duplicated.
* `Ledger`: The ledger is right.
* `Keeps`: What an input has to be like for it to stay right.

## Theorems

* `ledger_rejected_iff`, `ledger_listed_iff`: What a request for a listener does.
* `ledger_step`: Such an input keeps the ledger right.
* `ledger_broken`: Any other one does not.
* `ledger_iff`: Both together, over whole runs.
-/

namespace ZeusOS

namespace InputManager

open Foundation.Words Foundation.Runs Binder
open ServiceManager (Allocator)
open Frameworks (inputManagerAddListener inputManagerDelListener)

/-- The descriptors `dup` gave out. Nothing here closes one. -/
def opened (log : List Deed) : List Int32 :=
  log.filterMap fun
    | .dup _ iFd => if iFd = -1 then none else some iFd
    | _ => none

theorem opened_append (log deeds : List Deed) :
    opened (log ++ deeds) = opened log ++ opened deeds := List.filterMap_append

theorem opened_dup (fd : UInt32) (iFd : Int32) (deeds : List Deed) :
    opened (.dup fd iFd :: deeds) = (if iFd = -1 then [] else [iFd]) ++ opened deeds := by
  unfold opened
  by_cases hfailed : iFd = -1
  · simp only [List.filterMap_cons, if_pos hfailed, List.nil_append]
  · simp only [List.filterMap_cons, if_neg hfailed, List.singleton_append]

@[simp] theorem opened_pushed (desc : ListenerDesc) : opened [.pushed desc] = [] := rfl

@[simp] theorem opened_freed (desc : ListenerDesc) : opened [.freed desc] = [] := rfl

@[simp] theorem opened_nil : opened [] = [] := rfl

/-- The open descriptors are the listeners', one each, and each is a duplicate
    of a descriptor that came in an object of the listener's own message. -/
structure Ledger (s : State) : Prop where
  accounted : (opened s.manager.log).Perm (s.manager.mListenerDescList.map ListenerDesc.iFd)
  carried : ∀ desc ∈ s.manager.mListenerDescList, ∃ origin fd, s.own desc = some origin ∧
    origin.txn.code = inputManagerAddListener ∧ .dup fd desc.iFd ∈ origin.deeds ∧
      HasObject origin.mem origin.txn binderTypeFd fd

/-- A request for a listener carries a descriptor that can be duplicated if it
    is accepted, and one that cannot if it is turned down; and no listener
    leaves. -/
def Keeps (s : State) : Input → Prop
  | .transact alloc dup mem txn _ =>
    (∀ req addr death,
      Adding alloc txn (Parcel.bioInitFromTxn mem txn) s.manager req addr death →
        if req.iHandle = 0 then dup req.fd = -1
        else dup req.fd ≠ -1 ∧ HasObject mem txn binderTypeFd req.fd) ∧
    ∀ iUid, Deleting txn (Parcel.bioInitFromTxn mem txn) iUid →
      ∀ desc ∈ s.manager.mListenerDescList, desc.iUid ≠ iUid
  | .death cookie => ∀ desc ∈ s.manager.mListenerDescList, desc.death ≠ cookie

/-- The record of a request is in a place where no listener is. -/
theorem desc_not_mem {alloc : Allocator} (dup : UInt32 → Int32) {txn : Txn} {msg : Parcel}
    {m : BnInputManager} {req : AddRequest} {addr death : UInt32} (hm : Housed m)
    (h : Adding alloc txn msg m req addr death) :
    req.desc dup addr death ∉ m.mListenerDescList := by
  intro hmem
  refine alloc.fresh _ _ _ h.desc (hm.inUse.subset ?_)
  exact List.mem_flatMap.mpr ⟨_, hmem, List.mem_cons_of_mem _ List.mem_cons_self⟩

/-- What an accepted request leaves in the log and the list. -/
theorem adding_listed (dup : UInt32 → Int32) (m : BnInputManager) {req : AddRequest}
    (addr death : UInt32) (hhandle : req.iHandle ≠ 0) :
    (addListener (req.desc dup addr death) (m.prepare dup req addr death)).2.2.log
        = m.log ++ [.dup req.fd (dup req.fd), .pushed (req.desc dup addr death)] ∧
      (addListener (req.desc dup addr death) (m.prepare dup req addr death)).2.2.mListenerDescList
        = m.mListenerDescList ++ [req.desc dup addr death] := by
  rw [addListener_listed _ hhandle]
  refine ⟨?_, rfl⟩
  simp only [BnInputManager.prepare, List.append_assoc, List.singleton_append]

/-- What a request that is turned down leaves there. -/
theorem adding_rejected (dup : UInt32 → Int32) (m : BnInputManager) {req : AddRequest}
    (addr death : UInt32) (hhandle : req.iHandle = 0) :
    (addListener (req.desc dup addr death) (m.prepare dup req addr death)).2.2.log
        = m.log ++ [.dup req.fd (dup req.fd)] ∧
      (addListener (req.desc dup addr death) (m.prepare dup req addr death)).2.2.mListenerDescList
        = m.mListenerDescList := by
  rw [addListener_rejected _ hhandle]
  exact ⟨rfl, rfl⟩

/-- The state after a message that left the manager like this. Whoever is new
    in the list came with it. -/
def State.after (s : State) (mem : Mapping) (txn : Txn) (written : List RefCommand)
    (manager : BnInputManager) : State :=
  { manager
    written
    own := fun desc =>
      if desc ∈ s.manager.mListenerDescList then s.own desc
      else some ⟨mem, txn, manager.log.drop s.manager.log.length⟩ }

section

variable {s : State} {alloc : Allocator} {dup : UInt32 → Int32} {mem : Mapping} {txn : Txn}
  {written : List RefCommand}

/-- A message that leaves the manager as it was leaves the ledger right. -/
theorem ledger_unchanged (hs : Ledger s) : Ledger (s.after mem txn written s.manager) := by
  refine ⟨hs.accounted, fun desc hmem => ?_⟩
  rcases hs.carried desc hmem with ⟨origin, fd, hown, hrest⟩
  exact ⟨origin, fd, (if_pos hmem).trans hown, hrest⟩

variable {req : AddRequest} {addr death : UInt32}

/-- A request that is turned down may have duplicated nothing. -/
theorem ledger_rejected_iff (hs : Ledger s) (hhandle : req.iHandle = 0) :
    Ledger (s.after mem txn written
        (addListener (req.desc dup addr death) (s.manager.prepare dup req addr death)).2.2)
      ↔ dup req.fd = -1 := by
  rcases adding_rejected dup s.manager addr death hhandle with ⟨hlog, hlist⟩
  constructor
  · intro hafter
    by_contra hopen
    -- Otherwise there is one descriptor more for the same listeners.
    have hlength := hafter.accounted.length_eq
    have hbefore := hs.accounted.length_eq
    simp only [State.after, hlog, hlist, opened_append, opened_dup, if_neg hopen, opened_nil,
      List.length_append, List.length_cons, List.length_nil] at hlength
    omega
  · intro hfailed
    refine ⟨?_, fun desc hmem => ?_⟩
    · simp only [State.after, hlog, hlist, opened_append, opened_dup, if_pos hfailed, opened_nil,
        List.append_nil]
      exact hs.accounted
    · simp only [State.after, hlist] at hmem ⊢
      rw [if_pos hmem]
      exact hs.carried desc hmem

/-- One that is accepted must have duplicated a descriptor of its own. -/
theorem ledger_listed_iff (hs : Ledger s) (hapart : Housed s.manager)
    (hadding : Adding alloc txn (Parcel.bioInitFromTxn mem txn) s.manager req addr death)
    (hhandle : req.iHandle ≠ 0) :
    Ledger (s.after mem txn written
        (addListener (req.desc dup addr death) (s.manager.prepare dup req addr death)).2.2)
      ↔ dup req.fd ≠ -1 ∧ HasObject mem txn binderTypeFd req.fd := by
  rcases adding_listed dup s.manager addr death hhandle with ⟨hlog, hlist⟩
  have hnew := desc_not_mem dup hapart hadding
  constructor
  · intro hafter
    constructor
    · intro hfailed
      -- There would be one listener more for the same descriptors.
      have hlength := hafter.accounted.length_eq
      have hbefore := hs.accounted.length_eq
      simp only [State.after, hlog, hlist, opened_append, opened_dup, if_pos hfailed, opened_pushed,
        List.map_append, List.length_append, List.length_map, List.map_cons, List.map_nil,
        List.length_cons, List.length_nil] at hlength hbefore
      omega
    · -- Nothing else was duplicated for the new listener than what its message has.
      have hmem : req.desc dup addr death ∈ (s.after mem txn written
          (addListener (req.desc dup addr death)
            (s.manager.prepare dup req addr death)).2.2).manager.mListenerDescList := by
        simp only [State.after, hlist]
        exact List.mem_append_right _ List.mem_cons_self
      rcases hafter.carried _ hmem with ⟨origin, fd, hown, _, hdup, hhas⟩
      simp only [State.after, hlog, if_neg hnew, List.drop_left, Option.some.injEq] at hown
      subst hown
      simp only [List.mem_cons, Deed.dup.injEq, List.not_mem_nil, or_false, reduceCtorEq] at hdup
      rw [hdup.1] at hhas
      exact hhas
  · rintro ⟨hopen, hhas⟩
    refine ⟨?_, fun desc hmem => ?_⟩
    · simp only [State.after, hlog, hlist, opened_append, opened_dup, if_neg hopen, opened_pushed,
        List.append_nil, List.map_append, List.map_cons, List.map_nil]
      exact hs.accounted.append_right _
    · simp only [State.after, hlist, hlog] at hmem ⊢
      rcases List.mem_append.mp hmem with hold | hlast
      · rw [if_pos hold]
        exact hs.carried desc hold
      · -- The new listener's descriptor is the one just duplicated.
        rw [List.mem_singleton] at hlast
        subst hlast
        rw [if_neg hnew, List.drop_left]
        exact ⟨_, req.fd, rfl, hadding.code, List.mem_cons_self, hhas⟩

/-- Both kinds of request. -/
theorem ledger_adding_iff (hs : Ledger s) (hapart : Housed s.manager)
    (hadding : Adding alloc txn (Parcel.bioInitFromTxn mem txn) s.manager req addr death) :
    Ledger (s.after mem txn written
        (addListener (req.desc dup addr death) (s.manager.prepare dup req addr death)).2.2)
      ↔ if req.iHandle = 0 then dup req.fd = -1
        else dup req.fd ≠ -1 ∧ HasObject mem txn binderTypeFd req.fd := by
  by_cases hhandle : req.iHandle = 0
  · rw [if_pos hhandle, ledger_rejected_iff hs hhandle]
  · rw [if_neg hhandle, ledger_listed_iff hs hapart hadding hhandle]

end

theorem ledger_step (s : State) (i : Input) (s' : State) (hs : Housed s.manager ∧ Ledger s)
    (hkeeps : Keeps s i) (h : step s i = some s') : Housed s'.manager ∧ Ledger s' := by
  refine ⟨step_housed s i s' hs.1 h, ?_⟩
  cases i with
  | death cookie =>
      -- A callback that is made is made for a listener.
      simp only [step, Option.map_eq_some_iff] at h
      rcases h with ⟨_, hdeath, _⟩
      rcases binderDeath_cases hdeath with ⟨desc, hmem, hcookie, _⟩
      exact absurd hcookie (hkeeps desc hmem)
  | transact alloc dup mem txn io =>
      simp only [step, Option.map_eq_some_iff] at h
      rcases h with ⟨res, hres, rfl⟩
      have hcases := onTransact_cases hres
      rcases res with ⟨status, reply, writes, m'⟩
      cases hcases with
      | unchanged => exact ledger_unchanged hs.2
      | deleting iUid hdeleting =>
          rcases delListener_cases iUid s.manager with ⟨_, hdel⟩ | ⟨desc, _, hmem, huid, _⟩
          · rw [hdel]
            exact ledger_unchanged hs.2
          · exact absurd huid (hkeeps.2 iUid hdeleting desc hmem)
      | adding req addr death hadding =>
          exact (ledger_adding_iff hs.2 hs.1 hadding).mpr (hkeeps.1 req addr death hadding)

/-- A listener that leaves leaves its descriptor behind. -/
theorem discard_broken {s : State} {desc : ListenerDesc} {written : List RefCommand}
    {own : ListenerDesc → Option Origin} (hs : Housed s.manager ∧ Ledger s)
    (hmem : desc ∈ s.manager.mListenerDescList) :
    ¬ Ledger { manager := (s.manager.discard desc).2, written, own } := by
  intro hc
  have hbefore := hs.2.accounted.length_eq
  have hafter := hc.accounted.length_eq
  have hone := (remove_perm hs.1 hmem).length_eq
  -- One listener fewer for the same number of descriptors.
  simp only [BnInputManager.discard, opened_append, List.length_append, List.length_map,
    List.length_cons, opened_freed, List.length_nil] at hbefore hafter hone
  omega

/-- Any other input has a result, and leaves the ledger wrong. -/
theorem ledger_broken (s : State) (i : Input) (hs : Housed s.manager ∧ Ledger s)
    (hkeeps : ¬ Keeps s i) : ∃ s', step s i = some s' ∧ ¬ Ledger s' := by
  cases i with
  | death cookie =>
      simp only [Keeps, not_forall, not_not] at hkeeps
      rcases hkeeps with ⟨desc, hmem, hcookie⟩
      rcases Option.isSome_iff_exists.mp (binderDeath_isSome.mpr ⟨desc, hmem, hcookie⟩) with
        ⟨result, hdeath⟩
      rcases binderDeath_cases hdeath with ⟨desc', hmem', _, heq⟩
      rw [inputBinderDeath_housed hs.1 hmem'] at heq
      refine ⟨_, by simp only [step, hdeath, Option.map_some]; rfl, ?_⟩
      rw [heq]
      exact discard_broken hs hmem'
  | transact alloc dup mem txn io =>
      unfold Keeps at hkeeps
      rw [not_and_or] at hkeeps
      rcases hkeeps with hadd | hdel
      · simp only [not_forall] at hadd
        rcases hadd with ⟨req, addr, death, hadding, hcond⟩
        rcases onTransact_adding dup io hadding with ⟨res, hres, _, hstate⟩
        refine ⟨s.after mem txn (s.written ++ res.writes) res.state, ?_, ?_⟩
        · simp only [step, hres, Option.map_some]
          rfl
        · rw [hstate, ledger_adding_iff hs.2 hs.1 hadding]
          exact hcond
      · simp only [not_forall, not_not] at hdel
        rcases hdel with ⟨iUid, hdeleting, desc, hmem, huid⟩
        rcases onTransact_deleting alloc dup io s.manager hdeleting with ⟨res, hres, _, hstate⟩
        refine ⟨_, by simp only [step, hres, Option.map_some]; rfl, ?_⟩
        rcases delListener_cases iUid s.manager with ⟨hnone, _⟩ | ⟨desc', _, hmem', _, hdel⟩
        · exact absurd huid (hnone desc hmem)
        · rw [hstate, hdel]
          exact discard_broken hs hmem'

/-- The ledger is right in every state a run reaches exactly when every request
    for a listener that is accepted carries a descriptor that is duplicated,
    none that is turned down does, and no listener leaves. -/
theorem ledger_iff (inputs : List Input) :
    Always step Ledger State.init inputs ↔ Along step Keeps State.init inputs :=
  always_iff_along_of step (fun s => Housed s.manager ∧ Ledger s) Ledger Keeps (fun _ hs => hs.2)
    ledger_step ledger_broken State.init inputs
    ⟨housed_init, List.Perm.refl _, fun _ hdesc => absurd hdesc List.not_mem_nil⟩

/-- A listener that is added and deleted again leaves a descriptor open that is
    nobody's. -/
theorem deleted_leaks :
    ∃ s, run step State.init [additionOf 1 5 10, deletionOf 1] = some s ∧
      opened s.manager.log = [10] ∧ s.manager.mListenerDescList = [] ∧ ¬ Ledger s := by
  have hleft : (run step State.init [additionOf 1 5 10, deletionOf 1]).map
      (fun s => (opened s.manager.log, s.manager.mListenerDescList)) = some ([10], []) := by
    decide +kernel
  rcases Option.map_eq_some_iff.mp hleft with ⟨s, hrun, hleft⟩
  rcases Prod.mk.inj hleft with ⟨hopened, hlist⟩
  refine ⟨s, hrun, hopened, hlist, fun hc => ?_⟩
  have hlength := hc.accounted.length_eq
  rw [hopened, hlist] at hlength
  exact absurd hlength (by decide)

end InputManager

end ZeusOS
