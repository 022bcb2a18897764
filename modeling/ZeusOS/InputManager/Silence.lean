import ZeusOS.InputManager.Listeners

/-!
# Deleted Listeners

Runs in which events are dispatched between the requests and the deaths, and
whom they are written to after a deletion.

A deletion takes out the first listener with the uid, and an addition does not
ask whether there is one. So a uid that was added twice is deleted once, and
the second listener stays and gets its events.

## Main definitions

* `deletes`, `adds`: The uid of a deletion, and of an addition, that is
  answered zero.
* `Occasion`, `Hearing`, `hear`: The machine with dispatches.
* `Quiet`: A dispatch that writes to no deleted uid.
* `Sole`: A deletion that leaves nobody behind.

## Theorems

* `onTransact_deletes`, `onTransact_adds`: What is answered zero.
* `step_relisted`: What a step does to the list.
* `hear_still`: What a step keeps.
* `quiet_iff_sole`: When deleted uids stay silent.
-/

namespace ZeusOS

namespace InputManager

open Foundation.Runs Binder
open ServiceManager (Allocator)
open Frameworks (inputManagerAddListener inputManagerDelListener)
open ZeusOS.Input (CookEvent)

/-- The uid of a `DEL_LISTENER` that is answered zero. -/
def deletes (m : BnInputManager) : Input → Option UInt32
  | .transact _ _ mem txn _ =>
    (Parcel.bioInitFromTxn mem txn).getUint32.bind fun (strictPolicy, msg) =>
      if strictPolicy = 0 ∧ txn.code = inputManagerDelListener then
        (msg.getUint32.map Prod.fst).filter fun iUid => (delListener iUid m).1 = 0
      else none
  | .death _ => none

/-- The uid of an `ADD_LISTENER` that is answered zero. -/
def adds : Input → Option UInt32
  | .transact _ _ mem txn _ =>
    (Parcel.bioInitFromTxn mem txn).getUint32.bind fun (strictPolicy, msg) =>
      if strictPolicy = 0 ∧ txn.code = inputManagerAddListener then
        ((readAddListener msg).filter fun req => req.iHandle ≠ 0).map AddRequest.iUid
      else none
  | .death _ => none

/-- What can happen: a request or a death is handled, or an event is
    dispatched. -/
inductive Occasion where
  | serve (input : Input)
  | dispatchEvent (cookEvent : CookEvent)

/-- The manager, and the uids that have been deleted and not added again. -/
structure Hearing where
  listeners : State
  gone : List UInt32

/-- Nobody there, and nobody deleted. -/
def Hearing.start : Hearing := { listeners := State.init, gone := [] }

/-- The deleted uids after a request or a death. -/
def goneAfter (m : BnInputManager) (input : Input) (gone : List UInt32) : List UInt32 :=
  match deletes m input with
  | some iUid => iUid :: gone
  | none => match adds input with
    | some iUid => gone.filter (· ≠ iUid)
    | none => gone

/-- A dispatch changes nothing here. -/
def hear (s : Hearing) : Occasion → Option Hearing
  | .serve input => (step s.listeners input).map fun listeners =>
      { listeners, gone := goneAfter s.listeners.manager input s.gone }
  | .dispatchEvent _ => some s

/-- If it is a dispatch, it writes to no listener whose uid has been deleted. -/
def Quiet (s : Hearing) (a : Occasion) : Prop :=
  ∀ cookEvent, a = .dispatchEvent cookEvent →
    ∀ w ∈ dispatchEvent cookEvent s.listeners.manager.mListenerDescList, w.1.iUid ∉ s.gone

/-- If it is a deletion, the listener it finds is the only one with its uid that
    wants events. -/
def Sole (s : State) (input : Input) : Prop :=
  ∀ iUid, deletes s.manager input = some iUid →
    ∀ desc ∈ s.manager.mListenerDescList, desc.iUid = iUid → desc.iType ≠ 0 →
      (s.manager.mListenerDescList.find? fun desc => desc.iUid = iUid) = some desc

/-- The requests and the deaths among what happens. -/
def served (as : List Occasion) : List Input :=
  as.filterMap fun
    | .serve input => some input
    | .dispatchEvent _ => none

/-- No listener with a deleted uid wants events. -/
structure Still (s : Hearing) : Prop where
  housed : Housed s.listeners.manager
  silent : ∀ desc ∈ s.listeners.manager.mListenerDescList, desc.iUid ∈ s.gone → desc.iType = 0

/-- A `DEL_LISTENER` that can be read, and finds somebody. -/
theorem deletes_iff {alloc : Allocator} {dup : UInt32 → Int32} {mem : Mapping} {txn : Txn}
    {io : IoData} {m : BnInputManager} {iUid : UInt32} :
    deletes m (.transact alloc dup mem txn io) = some iUid ↔
      Deleting txn (Parcel.bioInitFromTxn mem txn) iUid ∧ (delListener iUid m).1 = 0 := by
  simp only [deletes, Option.bind_eq_some_iff, Option.ite_none_right_eq_some,
    Option.filter_eq_some_iff, Option.map_eq_some_iff, decide_eq_true_eq]
  constructor
  · rintro ⟨⟨_, msg'⟩, hpolicy, ⟨rfl, hcode⟩, ⟨⟨_, msg''⟩, huid, rfl⟩, hzero⟩
    exact ⟨⟨hcode, msg', msg'', hpolicy, huid⟩, hzero⟩
  · rintro ⟨⟨hcode, msg', msg'', hpolicy, huid⟩, hzero⟩
    exact ⟨⟨0, msg'⟩, hpolicy, ⟨rfl, hcode⟩, ⟨⟨iUid, msg''⟩, huid, rfl⟩, hzero⟩

/-- An `ADD_LISTENER` that can be read, and has a handle. -/
theorem adds_iff {alloc : Allocator} {dup : UInt32 → Int32} {mem : Mapping} {txn : Txn}
    {io : IoData} {iUid : UInt32} :
    adds (.transact alloc dup mem txn io) = some iUid ↔
      txn.code = inputManagerAddListener ∧
        ∃ msg' req, (Parcel.bioInitFromTxn mem txn).getUint32 = some (0, msg') ∧
          readAddListener msg' = some req ∧ req.iHandle ≠ 0 ∧ req.iUid = iUid := by
  simp only [adds, Option.bind_eq_some_iff, Option.ite_none_right_eq_some,
    Option.map_eq_some_iff, Option.filter_eq_some_iff, decide_eq_true_eq]
  constructor
  · rintro ⟨⟨_, msg'⟩, hpolicy, ⟨rfl, hcode⟩, req, ⟨hreq, hbound⟩, huid⟩
    exact ⟨hcode, msg', req, hpolicy, hreq, hbound, huid⟩
  · rintro ⟨hcode, msg', req, hpolicy, hreq, hbound, huid⟩
    exact ⟨⟨0, msg'⟩, hpolicy, ⟨rfl, hcode⟩, req, ⟨hreq, hbound⟩, huid⟩

/-- The first is answered zero. -/
theorem onTransact_deletes {alloc : Allocator} {dup : UInt32 → Int32} {mem : Mapping} {txn : Txn}
    {io : IoData} {m : BnInputManager} {iUid : UInt32}
    (h : deletes m (.transact alloc dup mem txn io) = some iUid) :
    onTransact alloc dup txn (Parcel.bioInitFromTxn mem txn) (Parcel.new io) m
      = answered (Parcel.new io) (0, (delListener iUid m).2) := by
  rcases deletes_iff.mp h with ⟨hdeleting, hzero⟩
  rcases hdeleting.read with ⟨msg', msg'', hpolicy, huid⟩
  have hne : inputManagerDelListener ≠ inputManagerAddListener := by decide
  have hresult : delListener iUid m = (0, (delListener iUid m).2) := by
    rw [← hzero]
  rw [← hresult]
  simp only [onTransact, hpolicy, Option.bind_some, ne_eq, not_true, if_false, hdeleting.code,
    if_neg hne, if_true, huid]

/-- So is the second, if it is handled at all. -/
theorem onTransact_adds {alloc : Allocator} {dup : UInt32 → Int32} {mem : Mapping} {txn : Txn}
    {io : IoData} {m : BnInputManager} {iUid : UInt32} {res : Handled BnInputManager}
    (h : adds (.transact alloc dup mem txn io) = some iUid)
    (hres : onTransact alloc dup txn (Parcel.bioInitFromTxn mem txn) (Parcel.new io) m = some res) :
    ∃ desc writes m', desc.iUid = iUid ∧ answered (Parcel.new io) (0, writes, m') = some res ∧
      m'.mListenerDescList = m.mListenerDescList ++ [desc] := by
  rcases adds_iff.mp h with ⟨hcode, msg', req, hpolicy, hreq, hbound, rfl⟩
  simp only [onTransact, hpolicy, Option.bind_some, ne_eq, not_true, if_false, hcode, if_true,
    hreq, Option.bind_eq_some_iff] at hres
  rcases hres with ⟨addr, _, death, _, hres⟩
  have hhandle : (req.desc dup addr death).iHandle ≠ 0 := hbound
  rw [addListener_listed _ hhandle] at hres
  exact ⟨_, _, _, rfl, hres, rfl⟩

/-- What a request or a death does to the list: a deletion takes out the first
    with its uid, an addition puts one in at the end, and everything else puts
    nobody in. -/
inductive Relisted (m : BnInputManager) (input : Input) : List ListenerDesc → Prop
  | deleted (iUid : UInt32) (desc : ListenerDesc) (hdel : deletes m input = some iUid)
      (hfind : (m.mListenerDescList.find? fun desc => desc.iUid = iUid) = some desc) :
      Relisted m input (remove desc m.mListenerDescList)
  | added (desc : ListenerDesc) (hdel : deletes m input = none)
      (hadd : adds input = some desc.iUid) : Relisted m input (m.mListenerDescList ++ [desc])
  | other (l : List ListenerDesc) (hdel : deletes m input = none)
      (hsub : l ⊆ m.mListenerDescList) : Relisted m input l

theorem step_relisted {s s' : State} {input : Input} (h : step s input = some s') :
    Relisted s.manager input s'.manager.mListenerDescList := by
  cases input with
  | death cookie =>
      simp only [step, Option.map_eq_some_iff] at h
      rcases h with ⟨_, hdeath, rfl⟩
      rcases binderDeath_cases hdeath with ⟨desc, _, _, rfl⟩
      refine .other _ rfl ?_
      unfold inputBinderDeath
      by_cases hbound : desc.iHandle ≠ 0
      · rw [if_pos hbound]
        exact List.filter_subset_self _
      · rw [if_neg hbound]
        exact List.Subset.refl _
  | transact alloc dup mem txn io =>
      simp only [step, Option.map_eq_some_iff] at h
      rcases h with ⟨res, hres, rfl⟩
      cases hdel : deletes s.manager (.transact alloc dup mem txn io) with
      | some iUid =>
          rw [onTransact_deletes hdel] at hres
          rcases deletes_iff.mp hdel with ⟨_, hzero⟩
          rcases delListener_cases iUid s.manager with ⟨_, hnone⟩ | ⟨desc, hfind, _, _, hsome⟩
          · rw [hnone] at hzero
            exact absurd hzero (show (-1 : Int32) ≠ 0 by decide)
          · rw [hsome] at hres
            rw [(answered_some hres).2.2]
            exact .deleted iUid desc hdel hfind
      | none =>
          have hcases := onTransact_cases hres
          generalize res.writes = writes, res.state = m' at hcases
          cases hcases with
          | unchanged => exact .other _ hdel (List.Subset.refl _)
          | adding req addr death hadding =>
              by_cases hbound : (req.desc dup addr death).iHandle = 0
              · rw [addListener_rejected _ hbound]
                exact .other _ hdel (List.Subset.refl _)
              · rw [addListener_listed _ hbound]
                rcases hadding.read with ⟨msg', hpolicy, hreq⟩
                exact .added (req.desc dup addr death) hdel
                  (adds_iff.mpr ⟨hadding.code, msg', req, hpolicy, hreq, hbound, rfl⟩)
          | deleting iUid hdeleting =>
              -- Somebody had the uid and it would have been answered zero, or nobody had.
              rcases delListener_cases iUid s.manager with ⟨_, hnone⟩ | ⟨desc, _, _, _, hsome⟩
              · rw [hnone]
                exact .other _ hdel (List.Subset.refl _)
              · have hfound : deletes s.manager (.transact alloc dup mem txn io) = some iUid :=
                  deletes_iff.mpr ⟨hdeleting, congrArg Prod.fst hsome⟩
                rw [hdel] at hfound
                cases hfound

/-- Without a deletion no uid is deleted. -/
theorem goneAfter_subset {m : BnInputManager} {input : Input} (h : deletes m input = none)
    (gone : List UInt32) : goneAfter m input gone ⊆ gone := by
  unfold goneAfter
  rw [h]
  cases adds input with
  | none => exact List.Subset.refl _
  | some iUid => exact List.filter_subset_self _

/-- If a deletion leaves nobody behind, no listener with a deleted uid wants
    events. -/
theorem hear_still (s : Hearing) (input : Input) (s' : Hearing) (hs : Still s)
    (hsole : Sole s.listeners input) (h : hear s (.serve input) = some s') : Still s' := by
  simp only [hear, Option.map_eq_some_iff] at h
  rcases h with ⟨listeners, hstep, rfl⟩
  refine ⟨step_housed s.listeners input listeners hs.housed hstep, fun desc hdesc hgone => ?_⟩
  have hrelisted := step_relisted hstep
  generalize listeners.manager.mListenerDescList = l at hrelisted hdesc
  cases hrelisted with
  | deleted iUid first hdel hfind =>
      rcases List.mem_filter.mp hdesc with ⟨hmem, haddr⟩
      have hgone' : desc.iUid ∈ iUid :: s.gone := by
        simp only [goneAfter, hdel] at hgone
        exact hgone
      rcases List.mem_cons.mp hgone' with huid | hbefore
      · -- Whoever wants events and has the uid is the one that has left.
        by_contra htype
        have hfirst := hsole iUid hdel desc hmem huid htype
        rw [hfind, Option.some.injEq] at hfirst
        subst hfirst
        exact absurd rfl (of_decide_eq_true haddr)
      · exact hs.silent desc hmem hbefore
  | added new hdel hadd =>
      have hgone' : desc.iUid ∈ s.gone.filter (· ≠ new.iUid) := by
        simp only [goneAfter, hdel, hadd] at hgone
        exact hgone
      rcases List.mem_filter.mp hgone' with ⟨hbefore, hother⟩
      rcases List.mem_append.mp hdesc with hmem | hnew
      · exact hs.silent desc hmem hbefore
      · rw [List.mem_singleton.mp hnew] at hother
        exact absurd rfl (of_decide_eq_true hother)
  | other l hdel hsub => exact hs.silent desc (hsub hdesc) (goneAfter_subset hdel _ hgone)

theorem quiet_of_still {s : Hearing} (hs : Still s) (a : Occasion) : Quiet s a := by
  rintro cookEvent rfl w hw hgone
  rcases List.mem_map.mp hw with ⟨desc, hdesc, rfl⟩
  rcases List.mem_filter.mp hdesc with ⟨hmem, hwants⟩
  rw [hs.silent desc hmem hgone, UInt32.and_zero] at hwants
  exact absurd rfl (of_decide_eq_true hwants)

/-- A deletion that leaves somebody behind succeeds, and there is an event that
    is written to them. -/
theorem hear_left_behind {s : Hearing} {input : Input} (hs : Housed s.listeners.manager)
    (hsole : ¬ Sole s.listeners input) :
    ∃ s', hear s (.serve input) = some s' ∧ ¬ ∀ a, Quiet s' a := by
  unfold Sole at hsole
  push Not at hsole
  rcases hsole with ⟨iUid, hdel, desc, hmem, huid, htype, hother⟩
  cases input with
  | death cookie => cases hdel
  | transact alloc dup mem txn io =>
      rcases answered_new io (0, (delListener iUid s.listeners.manager).2) with ⟨res, hres, _, hstate⟩
      rw [← onTransact_deletes hdel] at hres
      have hstep : ∃ listeners, step s.listeners (.transact alloc dup mem txn io) = some listeners ∧
          listeners.manager = res.state := by
        simp only [step, hres, Option.map_some]
        exact ⟨_, rfl, rfl⟩
      rcases hstep with ⟨listeners, hstep, hmanager⟩
      refine ⟨_, by rw [hear, hstep, Option.map_some], fun hquiet => ?_⟩
      rcases delListener_cases iUid s.listeners.manager with ⟨hnobody, _⟩ | ⟨first, hfind, hfirst, _, hsome⟩
      · exact hnobody desc hmem huid
      · -- The listener left behind is in a place of its own, so it is still in the list.
        have hne : desc.addr ≠ first.addr := fun heq => hother (by
          rw [hfind, List.inj_on_of_nodup_map (addr_nodup hs) hmem hfirst heq])
        have hstays : desc ∈ listeners.manager.mListenerDescList := by
          rw [hmanager, hstate, hsome]
          exact List.mem_filter.mpr ⟨hmem, decide_eq_true hne⟩
        have hwrite := hquiet (.dispatchEvent ⟨⟨0, 0⟩, 0, desc.iType.toInt32, 0, 0, 0, 0, 0, 0⟩) _ rfl
          (desc, _) (List.mem_map_of_mem (List.mem_filter.mpr ⟨hstays, decide_eq_true ?_⟩))
        · refine hwrite ?_
          simp only [goneAfter, hdel, huid, List.mem_cons, true_or]
        · rw [UInt32.toUInt32_toInt32, UInt32.and_self]
          exact htype

/-- Dispatches do not change what the requests and the deaths lead to. -/
theorem run_hear (s : Hearing) (as : List Occasion) :
    (run hear s as).map Hearing.listeners = run step s.listeners (served as) := by
  induction as generalizing s with
  | nil => rfl
  | cons a as ih =>
      cases a with
      | dispatchEvent cookEvent => exact ih s
      | serve input =>
          change ((hear s (.serve input)).bind fun s' => run hear s' as).map Hearing.listeners
            = (step s.listeners input).bind fun t => run step t (served as)
          rw [hear]
          cases step s.listeners input with
          | none => rfl
          | some listeners => exact ih _

theorem run_serve (s : Hearing) (inputs : List Input) :
    run (fun s input => hear s (.serve input)) s inputs = run hear s (inputs.map .serve) := by
  induction inputs generalizing s with
  | nil => rfl
  | cons input inputs ih =>
      rw [List.map_cons, run_cons, run_cons]
      cases hear s (.serve input) with
      | none => rfl
      | some s' => exact ih s'

theorem served_serve (inputs : List Input) : served (inputs.map .serve) = inputs := by
  rw [served, List.filterMap_map]
  exact List.filterMap_some

theorem run_served {as : List Occasion} {s : Hearing} (h : run hear Hearing.start as = some s) :
    run step State.init (served as) = some s.listeners := by
  have hproject := run_hear Hearing.start as
  rw [h] at hproject
  exact hproject.symm

/-- A dispatch can be put in anywhere, so every state reached is quiet whatever
    is dispatched. -/
theorem always_quiet {inputs : List Input}
    (h : ∀ as, served as = inputs → Along hear Quiet Hearing.start as) :
    Always (fun s input => hear s (.serve input)) (fun s => ∀ a, Quiet s a) Hearing.start inputs := by
  rintro before after t rfl hrun (input | cookEvent)
  · intro cookEvent heq
    cases heq
  · rw [run_serve] at hrun
    refine h (before.map .serve ++ .dispatchEvent cookEvent :: after.map .serve) ?_ _ _ _ t rfl hrun
    have hsplit : served (before.map .serve ++ .dispatchEvent cookEvent :: after.map .serve)
        = served (before.map .serve) ++ served (after.map .serve) := List.filterMap_append
    rw [hsplit, served_serve, served_serve]

theorem still_hear (s : Hearing) (a : Occasion) (s' : Hearing) (hs : Still s)
    (hsole : ∀ input, a = .serve input → Sole s.listeners input) (h : hear s a = some s') : Still s' := by
  cases a with
  | serve input => exact hear_still s input s' hs (hsole input rfl) h
  | dispatchEvent cookEvent =>
      rw [hear, Option.some.injEq] at h
      rwa [← h]

/-- With events dispatched anywhere between these requests and deaths, none is
    ever written to a listener whose uid has been deleted and not added again,
    exactly if every deletion among them finds the only listener with its uid
    that wants events. -/
theorem quiet_iff_sole (inputs : List Input) :
    (∀ as, served as = inputs → Along hear Quiet Hearing.start as) ↔
      Along step Sole State.init inputs := by
  have hstart : Still Hearing.start :=
    ⟨housed_init, fun desc hdesc => absurd hdesc List.not_mem_nil⟩
  constructor
  · intro h
    have halways := always_quiet h
    rw [always_iff_along_of _ Still (fun s => ∀ a, Quiet s a) (fun s input => Sole s.listeners input)
      (fun s hs => quiet_of_still hs) (fun s input s' => hear_still s input s')
      (fun s input hs => hear_left_behind hs.housed) Hearing.start inputs hstart] at halways
    intro before input after t heq hrun
    -- The state that these requests lead to is one with a record of who is gone.
    have hproject := run_hear Hearing.start (before.map .serve)
    rw [served_serve] at hproject
    rcases Option.map_eq_some_iff.mp (hproject.trans hrun) with ⟨u, hu, rfl⟩
    rw [← run_serve] at hu
    exact halways before input after u heq hu
  · rintro h as rfl
    have hserve : Along hear (fun s a => ∀ input, a = .serve input → Sole s.listeners input)
        Hearing.start as := by
      rintro before a after t rfl hrun input rfl
      exact h (served before) input (served after) t.listeners List.filterMap_append (run_served hrun)
    have hstill := always_of_along hear Still _ still_hear Hearing.start as hstart hserve
    exact along_of_always (fun _ a ht => quiet_of_still ht a) hstill

/-- Two listeners with one uid. It is deleted once, and the second one is still
    written to. -/
theorem deleted_still_heard : ¬ ∀ as, Along hear Quiet Hearing.start as := by
  intro h
  have hrun : (run hear Hearing.start
      [.serve (additionOf 7 5 10), .serve (additionOf 7 6 11), .serve (deletionOf 7)]).map
        (fun s => (dispatchEvent ⟨⟨0, 0⟩, 0, 1, 0, 0, 0, 0, 0, 0⟩ s.listeners.manager.mListenerDescList).map
          fun w => decide (w.1.iUid ∈ s.gone)) = some [true] := by
    decide +kernel
  rcases Option.map_eq_some_iff.mp hrun with ⟨s, hs, hwrites⟩
  rcases List.map_eq_singleton_iff.mp hwrites with ⟨w, hw, hgone⟩
  refine h _ _ (.dispatchEvent ⟨⟨0, 0⟩, 0, 1, 0, 0, 0, 0, 0, 0⟩) [] s rfl hs _ rfl w ?_
    (of_decide_eq_true hgone)
  rw [hw]
  exact List.mem_singleton_self w

end InputManager

end ZeusOS
