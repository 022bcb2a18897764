import Mathlib.Data.List.Nodup
import Mathlib.Data.List.Perm.Subperm
import ZeusOS.Binder.Writing
import ZeusOS.InputManager.Manager

/-!
# What a Request to the Input Manager Can Do

The ways a transaction can end. A request that can be read and is understood
goes to one of the two methods; every other one changes nothing. `Adding` and
`Deleting` say when that is, as conditions on the message and the allocator.

The list is kept apart from the memory it stands in. `Housed` says that every
record in the list is in two blocks of its own, both in use. It follows that no
two records have an address or a cookie in common, so that `remove` takes out
one record and nothing else.

## Main definitions

* `Adding`, `Deleting`: A request that is understood.
* `Transacted`: What `onTransact` can have done.
* `blocks`, `Housed`: Every record is in memory of its own.

## Theorems

* `onTransact_cases`: The outcomes.
* `onTransact_adding`, `onTransact_deleting`: A request that is understood.
* `delListener_cases`, `binderDeath_cases`: Which record leaves.
* `remove_perm`: A record that leaves, and the others.
* `housed_transacted`: Records stay apart.
-/

namespace ZeusOS

namespace InputManager

open Foundation.Words Binder
open ServiceManager (Allocator)
open Frameworks (inputManagerAddListener inputManagerDelListener)

/-- An `ADD_LISTENER` request that can be read, with the blocks its record
    gets. -/
structure Adding (alloc : Allocator) (txn : Txn) (msg : Parcel) (m : BnInputManager)
    (req : AddRequest) (addr death : UInt32) : Prop where
  code : txn.code = inputManagerAddListener
  read : ∃ msg', msg.getUint32 = some (0, msg') ∧ readAddListener msg' = some req
  desc : alloc.malloc m.heap listenerDescSize = some addr
  death : alloc.malloc (addr :: m.heap) binderDeathSize = some death

/-- A `DEL_LISTENER` request for this uid. -/
structure Deleting (txn : Txn) (msg : Parcel) (iUid : UInt32) : Prop where
  code : txn.code = inputManagerDelListener
  read : ∃ msg' msg'', msg.getUint32 = some (0, msg') ∧ msg'.getUint32 = some (iUid, msg'')

/-- What `onTransact` can have done to the manager and the driver. -/
inductive Transacted (alloc : Allocator) (dup : UInt32 → Int32) (txn : Txn) (msg : Parcel)
    (m : BnInputManager) : List RefCommand → BnInputManager → Prop
  | unchanged : Transacted alloc dup txn msg m [] m
  | adding (req : AddRequest) (addr death : UInt32) (hadding : Adding alloc txn msg m req addr death) :
      Transacted alloc dup txn msg m
        (addListener (req.desc dup addr death) (m.prepare dup req addr death)).2.1
        (addListener (req.desc dup addr death) (m.prepare dup req addr death)).2.2
  | deleting (iUid : UInt32) (hdeleting : Deleting txn msg iUid) :
      Transacted alloc dup txn msg m (delListener iUid m).2.1 (delListener iUid m).2.2

theorem answered_some {reply : Parcel} {result : Int32 × List RefCommand × BnInputManager}
    {res : Handled BnInputManager} (h : answered reply result = some res) :
    res.status = 0 ∧ res.writes = result.2.1 ∧ res.state = result.2.2 := by
  rcases result with ⟨iRet, writes, m⟩
  rw [answered, Option.map_eq_some_iff] at h
  rcases h with ⟨_, _, rfl⟩
  exact ⟨rfl, rfl, rfl⟩

theorem onTransact_cases {alloc : Allocator} {dup : UInt32 → Int32} {txn : Txn}
    {msg reply : Parcel} {m : BnInputManager} {res : Handled BnInputManager}
    (h : onTransact alloc dup txn msg reply m = some res) :
    Transacted alloc dup txn msg m res.writes res.state := by
  -- The tests of the source, in its order, until the request is known.
  rw [onTransact, Option.bind_eq_some_iff] at h
  rcases h with ⟨⟨policy, msg'⟩, hpolicy, h⟩
  by_cases hstrict : policy ≠ 0
  · simp only [if_pos hstrict, Option.map_eq_some_iff] at h
    rcases h with ⟨_, _, rfl⟩
    exact .unchanged
  simp only [if_neg hstrict] at h
  rw [not_not] at hstrict
  subst hstrict
  by_cases hadd : txn.code = inputManagerAddListener
  · simp only [if_pos hadd, Option.bind_eq_some_iff] at h
    rcases h with ⟨addr, haddr, req, hreq, death, hdeath, h⟩
    rcases answered_some h with ⟨_, hwrites, hstate⟩
    rw [hwrites, hstate]
    exact .adding req addr death ⟨hadd, ⟨msg', hpolicy, hreq⟩, haddr, hdeath⟩
  simp only [if_neg hadd] at h
  by_cases hdel : txn.code = inputManagerDelListener
  · simp only [if_pos hdel, Option.bind_eq_some_iff] at h
    rcases h with ⟨⟨iUid, msg''⟩, huid, h⟩
    rcases answered_some h with ⟨_, hwrites, hstate⟩
    rw [hwrites, hstate]
    exact .deleting iUid ⟨hdel, ⟨msg', msg'', hpolicy, huid⟩⟩
  · -- No other code is known.
    rw [if_neg hdel, Option.some.injEq] at h
    rw [← h]
    exact .unchanged

/-- A fresh reply has room for a status word. -/
theorem answered_new (io : IoData) (result : Int32 × List RefCommand × BnInputManager) :
    ∃ res, answered (Parcel.new io) result = some res ∧ res.writes = result.2.1 ∧
      res.state = result.2.2 := by
  rcases result with ⟨iRet, writes, m⟩
  rcases apply_spec (.uint32 iRet.toUInt32) _ (writer_new io) with ⟨reply, hreply, _⟩
  refine ⟨{ status := 0, reply, writes, state := m }, ?_, rfl, rfl⟩
  rw [answered, Option.map_eq_some_iff]
  exact ⟨reply, hreply, rfl⟩

/-- A request to add a listener that is understood is answered. -/
theorem onTransact_adding {alloc : Allocator} (dup : UInt32 → Int32) {txn : Txn} {msg : Parcel}
    (io : IoData) {m : BnInputManager} {req : AddRequest} {addr death : UInt32}
    (h : Adding alloc txn msg m req addr death) :
    ∃ res, onTransact alloc dup txn msg (Parcel.new io) m = some res ∧
      res.writes = (addListener (req.desc dup addr death) (m.prepare dup req addr death)).2.1 ∧
      res.state = (addListener (req.desc dup addr death) (m.prepare dup req addr death)).2.2 := by
  rcases h.read with ⟨msg', hpolicy, hreq⟩
  rcases answered_new io (addListener (req.desc dup addr death) (m.prepare dup req addr death))
    with ⟨res, hres, hwrites, hstate⟩
  refine ⟨res, ?_, hwrites, hstate⟩
  simp only [onTransact, hpolicy, Option.bind_some, ne_eq, not_true, if_false, h.code, if_true,
    h.desc, hreq, h.death, hres]

/-- So is one to delete a listener. -/
theorem onTransact_deleting (alloc : Allocator) (dup : UInt32 → Int32) {txn : Txn} {msg : Parcel}
    (io : IoData) (m : BnInputManager) {iUid : UInt32} (h : Deleting txn msg iUid) :
    ∃ res, onTransact alloc dup txn msg (Parcel.new io) m = some res ∧
      res.writes = (delListener iUid m).2.1 ∧ res.state = (delListener iUid m).2.2 := by
  rcases h.read with ⟨msg', msg'', hpolicy, huid⟩
  rcases answered_new io (delListener iUid m) with ⟨res, hres, hwrites, hstate⟩
  have hne : inputManagerDelListener ≠ inputManagerAddListener := by decide
  refine ⟨res, ?_, hwrites, hstate⟩
  simp only [onTransact, hpolicy, Option.bind_some, ne_eq, not_true, if_false, h.code, if_neg hne,
    if_true, huid, hres]

/-- A record without a handle is not put into the list. -/
theorem addListener_rejected {desc : ListenerDesc} (m : BnInputManager) (h : desc.iHandle = 0) :
    addListener desc m = (-1, [], m) := by
  rw [addListener, if_pos h]

theorem addListener_listed {desc : ListenerDesc} (m : BnInputManager) (h : desc.iHandle ≠ 0) :
    addListener desc m
      = (0, [.acquire desc.iHandle, .requestDeathNotification desc.iHandle desc.death],
        { m with
          mListenerDescList := m.mListenerDescList ++ [desc]
          log := m.log ++ [.pushed desc] }) := by
  rw [addListener, if_neg h]

/-- Either nobody has the uid, or the first who has it leaves. -/
theorem delListener_cases (iUid : UInt32) (m : BnInputManager) :
    ((∀ desc ∈ m.mListenerDescList, desc.iUid ≠ iUid) ∧ delListener iUid m = (-1, [], m)) ∨
      ∃ desc, (m.mListenerDescList.find? fun desc => desc.iUid = iUid) = some desc ∧
        desc ∈ m.mListenerDescList ∧ desc.iUid = iUid ∧ delListener iUid m = (0, m.discard desc) := by
  rcases hfind : m.mListenerDescList.find? (fun desc => desc.iUid = iUid) with _ | desc
  · refine Or.inl ⟨fun desc hdesc heq => ?_, ?_⟩
    · exact absurd (decide_eq_true heq) (List.find?_eq_none.mp hfind desc hdesc)
    · rw [delListener, hfind]
  · have huid := List.find?_some hfind
    rw [decide_eq_true_eq] at huid
    refine Or.inr ⟨desc, hfind, List.mem_of_find?_eq_some hfind, huid, ?_⟩
    rw [delListener, hfind]

/-- A death callback that does not run wild is made for a listener. -/
theorem binderDeath_cases {cookie : UInt32} {m : BnInputManager}
    {result : List RefCommand × BnInputManager} (h : binderDeath cookie m = some result) :
    ∃ desc ∈ m.mListenerDescList, desc.death = cookie ∧ result = inputBinderDeath desc m := by
  rw [binderDeath, Option.map_eq_some_iff] at h
  rcases h with ⟨desc, hfind, heq⟩
  have hcookie := List.find?_some hfind
  rw [decide_eq_true_eq] at hcookie
  exact ⟨desc, List.mem_of_find?_eq_some hfind, hcookie, heq.symm⟩

/-- And where the cookie is some listener's, it does not. -/
theorem binderDeath_isSome {cookie : UInt32} {m : BnInputManager} :
    (binderDeath cookie m).isSome ↔ ∃ desc ∈ m.mListenerDescList, desc.death = cookie := by
  rw [binderDeath, Option.isSome_map, List.find?_isSome]
  constructor
  · rintro ⟨desc, hdesc, hcookie⟩
    exact ⟨desc, hdesc, of_decide_eq_true hcookie⟩
  · rintro ⟨desc, hdesc, hcookie⟩
    exact ⟨desc, hdesc, decide_eq_true hcookie⟩

/-- The blocks some records are in. -/
def blocks (l : List ListenerDesc) : List UInt32 := l.flatMap fun desc => [desc.death, desc.addr]

/-- Every record in the list is in two blocks of its own, and has a handle. -/
structure Housed (m : BnInputManager) : Prop where
  apart : m.heap.Nodup
  inUse : List.Subperm (blocks m.mListenerDescList) m.heap
  bound : ∀ desc ∈ m.mListenerDescList, desc.iHandle ≠ 0

/-- What is in some blocks does not depend on the order. -/
theorem blocks_perm {l l' : List ListenerDesc} (h : l.Perm l') : (blocks l).Perm (blocks l') :=
  h.flatMap_right _

theorem blocks_nodup {m : BnInputManager} (h : Housed m) :
    (blocks m.mListenerDescList).Nodup := by
  rcases h.inUse with ⟨l, hperm, hsub⟩
  exact hperm.nodup_iff.mp (h.apart.sublist hsub)

-- Each field of a record is one of its two blocks, so a repetition would be one among the blocks.
theorem map_nodup_of_blocks {l : List ListenerDesc} (h : (blocks l).Nodup)
    (field : ListenerDesc → UInt32) (hfield : ∀ desc, field desc ∈ [desc.death, desc.addr]) :
    (l.map field).Nodup := by
  induction l with
  | nil => exact List.nodup_nil
  | cons desc l ih =>
      have hcons : blocks (desc :: l) = [desc.death, desc.addr] ++ blocks l := rfl
      rw [hcons, List.nodup_append] at h
      rcases h with ⟨_, hrest, hapart⟩
      rw [List.map_cons, List.nodup_cons]
      refine ⟨fun hmem => ?_, ih hrest⟩
      rcases List.mem_map.mp hmem with ⟨e, he, heq⟩
      exact hapart _ (hfield desc) _ (List.mem_flatMap.mpr ⟨e, he, hfield e⟩) heq.symm

theorem addr_nodup {m : BnInputManager} (h : Housed m) :
    (m.mListenerDescList.map ListenerDesc.addr).Nodup :=
  map_nodup_of_blocks (blocks_nodup h) _ fun _ => List.mem_cons_of_mem _ List.mem_cons_self

theorem death_nodup {m : BnInputManager} (h : Housed m) :
    (m.mListenerDescList.map ListenerDesc.death).Nodup :=
  map_nodup_of_blocks (blocks_nodup h) _ fun _ => List.mem_cons_self

/-- A record that leaves, and those that stay. -/
theorem remove_perm {m : BnInputManager} (h : Housed m) {desc : ListenerDesc}
    (hmem : desc ∈ m.mListenerDescList) :
    m.mListenerDescList.Perm (desc :: remove desc m.mListenerDescList) := by
  have hnodup := addr_nodup h
  have herase : remove desc m.mListenerDescList = m.mListenerDescList.erase desc := by
    rw [(List.Nodup.of_map _ hnodup).erase_eq_filter]
    refine List.filter_congr fun e he => ?_
    -- In one place there is one record.
    by_cases heq : e = desc
    · simp only [heq, ne_eq, not_true, decide_false, bne_self_eq_false]
    · have haddr : e.addr ≠ desc.addr := fun hc => heq (List.inj_on_of_nodup_map hnodup he hmem hc)
      simp only [haddr, ne_eq, not_false_eq_true, decide_true]
      exact (bne_iff_ne.mpr heq).symm
  rw [herase]
  exact List.perm_cons_erase hmem

/-- A record that leaves gives its two blocks back. -/
theorem housed_discard {m : BnInputManager} (h : Housed m) {desc : ListenerDesc}
    (hmem : desc ∈ m.mListenerDescList) : Housed (m.discard desc).2 := by
  have hperm := blocks_perm (remove_perm h hmem)
  refine ⟨(h.apart.erase _).erase _, ?_, fun e he => h.bound e (List.mem_of_mem_filter he)⟩
  have hsub := ((hperm.symm.subperm.trans h.inUse).erase desc.death).erase desc.addr
  have hcons : blocks (desc :: remove desc m.mListenerDescList)
      = desc.death :: desc.addr :: blocks (remove desc m.mListenerDescList) := rfl
  rw [hcons, List.erase_cons_head, List.erase_cons_head] at hsub
  exact hsub

/-- The blocks of a new record are in use by nobody else. -/
theorem housed_prepare {alloc : Allocator} {dup : UInt32 → Int32} {txn : Txn} {msg : Parcel}
    {m : BnInputManager} {req : AddRequest} {addr death : UInt32} (hm : Housed m)
    (h : Adding alloc txn msg m req addr death) :
    Housed (addListener (req.desc dup addr death) (m.prepare dup req addr death)).2.2 := by
  have hapart : (death :: addr :: m.heap).Nodup :=
    List.nodup_cons.mpr ⟨alloc.fresh _ _ _ h.death,
      List.nodup_cons.mpr ⟨alloc.fresh _ _ _ h.desc, hm.apart⟩⟩
  by_cases hzero : (req.desc dup addr death).iHandle = 0
  · -- The blocks stay in use, though no record of the list is in them.
    rw [addListener_rejected _ hzero]
    exact ⟨hapart, hm.inUse.trans ((List.sublist_cons_self _ _).trans
      (List.sublist_cons_self _ _)).subperm, hm.bound⟩
  · rw [addListener_listed _ hzero]
    refine ⟨hapart, ?_, fun e he => ?_⟩
    · have hperm : (blocks (m.mListenerDescList ++ [req.desc dup addr death])).Perm
          (death :: addr :: blocks m.mListenerDescList) :=
        blocks_perm (List.perm_append_singleton _ _)
      exact hperm.subperm.trans ((List.subperm_cons death).mpr ((List.subperm_cons addr).mpr hm.inUse))
    · rcases List.mem_append.mp he with hold | hnew
      · exact hm.bound e hold
      · rw [List.mem_singleton.mp hnew]
        exact hzero

/-- Whatever a transaction does, records stay apart. -/
theorem housed_transacted {alloc : Allocator} {dup : UInt32 → Int32} {txn : Txn} {msg : Parcel}
    {m m' : BnInputManager} {writes : List RefCommand} (hm : Housed m)
    (h : Transacted alloc dup txn msg m writes m') : Housed m' := by
  cases h with
  | unchanged => exact hm
  | adding req addr death hadding => exact housed_prepare hm hadding
  | deleting iUid _ =>
      rcases delListener_cases iUid m with ⟨_, hdel⟩ | ⟨desc, _, hmem, _, hdel⟩
      · rw [hdel]
        exact hm
      · rw [hdel]
        exact housed_discard hm hmem

/-- A listener that dies has a handle, so it does leave. -/
theorem inputBinderDeath_housed {m : BnInputManager} (hm : Housed m) {desc : ListenerDesc}
    (hmem : desc ∈ m.mListenerDescList) : inputBinderDeath desc m = m.discard desc := by
  rw [inputBinderDeath, if_pos (hm.bound desc hmem)]

end InputManager

end ZeusOS
