import ZeusOS.InputManager.Listeners
import ZeusOS.ServiceManager.Registry

/-!
# Where Handles Come From

A process can refer to another one only by a handle the driver has given it,
and the driver gives handles in the objects of a message, whose offsets it
checks. Plain bytes that look like an object are not one.

Both managers read a handle at the place where the strings before it end, and
whoever sends the message chooses the lengths of those. That does not help: a
handle is taken from an object the driver listed, wherever the cursor stands,
and such an object lies in the message. So whatever the managers keep or take a
reference on was handed to them by the driver, in a request of the right kind.

## Main definitions

* `RefCommand.taken`: The handle a command takes hold of.
* `Traced`: Every handle is of some origin.

## Theorems

* `readAddService_handle`, `readAddListener_handle`: The handle of a request.
* `registry_traced`, `listeners_traced`: A step takes no handle from elsewhere.
* `handles_received`: Where every handle comes from, in every run.
-/

namespace ZeusOS

namespace Frameworks

open Foundation.Runs Binder

/-- The handle a command takes a reference or a link on. -/
def RefCommand.taken : RefCommand → Option UInt32
  | .acquire target => some target
  | .release _ => none
  | .requestDeathNotification target _ => some target

/-- Every handle that is kept, unless it is zero, and every one that was taken
    hold of has this origin. -/
structure Traced (origin : UInt32 → Prop) (kept : List UInt32) (written : List RefCommand) : Prop where
  kept : ∀ handle ∈ kept, handle ≠ 0 → origin handle
  taken : ∀ c ∈ written, ∀ handle, RefCommand.taken c = some handle → origin handle

theorem traced_append {origin : UInt32 → Prop} {kept kept' : List UInt32}
    {written writes : List RefCommand} (h : Traced origin kept written)
    (hkept : ∀ handle ∈ kept', handle ∈ kept ∨ handle = 0 ∨ origin handle)
    (hwrites : ∀ c ∈ writes, ∀ handle, RefCommand.taken c = some handle → origin handle) :
    Traced origin kept' (written ++ writes) := by
  refine ⟨fun handle hmem hne => ?_, fun c hmem handle htaken => ?_⟩
  · rcases hkept handle hmem with hold | hzero | hnew
    · exact h.kept handle hold hne
    · exact absurd hzero hne
    · exact hnew
  · rcases List.mem_append.mp hmem with hold | hnew
    · exact h.taken c hold handle htaken
    · exact hwrites c hnew handle htaken

/-- The handle of a registration is zero or stands in an object of the
    message. -/
theorem readAddService_handle {mem : Mapping} {txn : Txn} {msg : Parcel} {name : List UInt8}
    {ref : ServiceManager.BinderRef}
    (hpolicy : (Parcel.bioInitFromTxn mem txn).getUint32 = some (0, msg))
    (hread : ServiceManager.readAddService txn msg = some (some (name, ref)))
    (hne : ref.handle ≠ 0) : HasObject mem txn binderTypeHandle ref.handle := by
  have hinside := getUint32_inside (init_inside mem txn) hpolicy
  rw [ServiceManager.readAddService, Option.bind_eq_some_iff] at hread
  rcases hread with ⟨⟨⟨ptr, len⟩, q⟩, hstring, hread⟩
  cases ptr with
  | none =>
      simp only [Option.some.injEq, reduceCtorEq] at hread
  | some ptr =>
      simp only [Option.bind_eq_some_iff, Option.map_eq_some_iff, Option.some.injEq,
        Prod.mk.injEq] at hread
      rcases hread with ⟨⟨handle, r⟩, href, _, _, _, rfl⟩
      exact (getObjOf_found (getString_inside hinside hstring) href).2 hne

/-- So is the handle of a request for a listener. -/
theorem readAddListener_handle {mem : Mapping} {txn : Txn} {msg : Parcel}
    {req : InputManager.AddRequest}
    (hpolicy : (Parcel.bioInitFromTxn mem txn).getUint32 = some (0, msg))
    (hread : InputManager.readAddListener msg = some req) (hne : req.iHandle ≠ 0) :
    HasObject mem txn binderTypeHandle req.iHandle := by
  have hinside := getUint32_inside (init_inside mem txn) hpolicy
  -- Every field is read inside the message, so the object is, too.
  simp only [InputManager.readAddListener, Option.bind_eq_some_iff, Option.map_eq_some_iff] at hread
  rcases hread with ⟨⟨_, p₁⟩, htype, ⟨_, p₂⟩, huid, ⟨_, p₃⟩, hfd, ⟨⟨_, _⟩, p₄⟩, hname,
    ⟨handle, p₅⟩, href, rfl⟩
  have h₁ := getUint32_inside hinside htype
  have h₂ := getUint32_inside h₁ huid
  have h₃ := (getObjOf_found h₂ hfd).1
  have h₄ := getString_inside h₃ hname
  exact (getObjOf_found h₄ href).2 hne

/-- A handle that came to the service manager in an object of a
    registration. -/
def RegistryOrigin (inputs : List ServiceManager.Input) (handle : UInt32) : Prop :=
  ∃ alloc mem txn io, .transact alloc mem txn io ∈ inputs ∧
    txn.code = ServiceManager.svcMgrAddService ∧ HasObject mem txn binderTypeHandle handle

/-- A handle that came to the input manager in an object of a request for a
    listener. -/
def ListenerOrigin (inputs : List InputManager.Input) (handle : UInt32) : Prop :=
  ∃ alloc dup mem txn io, .transact alloc dup mem txn io ∈ inputs ∧
    txn.code = inputManagerAddListener ∧ HasObject mem txn binderTypeHandle handle

section Registry

open ServiceManager

/-- Binding an entry puts no other handle into the list. -/
theorem update_handles {svclist : List SvcInfo} {si : SvcInfo} {handle h : UInt32}
    (hmem : h ∈ (update svclist { si with handle }).map SvcInfo.handle) :
    h ∈ svclist.map SvcInfo.handle ∨ h = handle := by
  rcases List.mem_map.mp hmem with ⟨e, he, rfl⟩
  unfold update at he
  rcases List.mem_map.mp he with ⟨e', he', rfl⟩
  by_cases haddr : e'.addr = si.addr
  · rw [if_pos haddr]
    exact Or.inr rfl
  · rw [if_neg haddr]
    exact Or.inl (List.mem_map_of_mem he')

theorem unbinding_taken {si : SvcInfo} {c : RefCommand} (hmem : c ∈ unbinding si) :
    RefCommand.taken c = none := by
  unfold unbinding at hmem
  by_cases hbound : si.handle ≠ 0
  · rw [if_pos hbound, List.mem_singleton] at hmem
    rw [hmem]
    rfl
  · rw [if_neg hbound] at hmem
    exact absurd hmem List.not_mem_nil

theorem registration_taken {handle h : UInt32} {si : SvcInfo} {c : RefCommand}
    (hmem : c ∈ registration handle si) (htaken : RefCommand.taken c = some h) : h = handle := by
  simp only [registration, List.mem_cons, List.not_mem_nil, or_false] at hmem
  rcases hmem with rfl | rfl
  · exact (Option.some.inj htaken).symm
  · exact (Option.some.inj htaken).symm

/-- The service manager takes no handle from anywhere but a registration. -/
theorem registry_traced (inputs : List Input) (s : State) (i : Input) (s' : State) (hi : i ∈ inputs)
    (hs : Traced (RegistryOrigin inputs) (s.svclist.map SvcInfo.handle) s.written)
    (h : step s i = some s') :
    Traced (RegistryOrigin inputs) (s'.svclist.map SvcInfo.handle) s'.written := by
  cases i with
  | death cookie =>
      simp only [step, Option.map_eq_some_iff, Prod.exists] at h
      rcases h with ⟨writes, svclist', hdeath, rfl⟩
      rcases binderDeath_cases hdeath with ⟨si, _, _, rfl, rfl⟩
      refine traced_append hs (fun handle hmem => ?_) fun c hmem handle htaken => ?_
      · rcases update_handles hmem with hold | hzero
        · exact Or.inl hold
        · exact Or.inr (Or.inl hzero)
      · rw [unbinding_taken hmem] at htaken
        cases htaken
  | transact alloc mem txn io =>
      simp only [step, Option.map_eq_some_iff] at h
      rcases h with ⟨res, hres, rfl⟩
      have hcases := onTransact_cases hres
      rcases res with ⟨status, reply, writes, svclist'⟩
      cases hcases with
      | unchanged =>
          exact traced_append hs (fun _ hmem => Or.inl hmem)
            fun _ hmem => absurd hmem List.not_mem_nil
      | added msg name ref _ _ _ hcode hpolicy hread hadd =>
          -- The handle is in the message, since a registration without one is turned down.
          have horigin : ref.handle ≠ 0 → RegistryOrigin inputs ref.handle := fun hne =>
            ⟨alloc, mem, txn, io, hi, hcode, readAddService_handle hpolicy hread hne⟩
          cases hadd with
          | bound si hvalid _ =>
              have horigin := horigin fun hc => hvalid (Or.inl hc)
              refine traced_append hs (fun handle hmem => ?_) fun c hmem handle htaken => ?_
              · rcases update_handles hmem with hold | rfl
                · exact Or.inl hold
                · exact Or.inr (Or.inr horigin)
              · rcases List.mem_append.mp hmem with hold | hnew
                · rw [unbinding_taken hold] at htaken
                  cases htaken
                · rw [registration_taken hnew htaken]
                  exact horigin
          | inserted addr si hvalid _ _ hnew =>
              have horigin := horigin fun hc => hvalid (Or.inl hc)
              have hhandle := (newSvc_some hvalid hnew).2.1
              refine traced_append hs (fun handle hmem => ?_) fun c hmem handle htaken => ?_
              · rcases List.mem_cons.mp hmem with rfl | hold
                · rw [hhandle]
                  exact Or.inr (Or.inr horigin)
                · exact Or.inl hold
              · rw [registration_taken hmem htaken]
                exact horigin

end Registry

section Listeners

open InputManager

/-- A listener that leaves takes no handle. -/
theorem discard_traced {origin : UInt32 → Prop} {m : BnInputManager} {written : List RefCommand}
    (h : Traced origin (m.mListenerDescList.map ListenerDesc.iHandle) written) (desc : ListenerDesc) :
    Traced origin ((m.discard desc).2.mListenerDescList.map ListenerDesc.iHandle)
      (written ++ (m.discard desc).1) := by
  refine traced_append h (fun handle hmem => ?_) fun c hmem handle htaken => ?_
  · rcases List.mem_map.mp hmem with ⟨e, he, rfl⟩
    exact Or.inl (List.mem_map_of_mem (List.mem_of_mem_filter he))
  · rw [List.mem_singleton.mp hmem] at htaken
    cases htaken

/-- The input manager takes no handle from anywhere but a request for a
    listener. -/
theorem listeners_traced (inputs : List Input) (s : State) (i : Input) (s' : State) (hi : i ∈ inputs)
    (hs : Traced (ListenerOrigin inputs) (s.manager.mListenerDescList.map ListenerDesc.iHandle)
      s.written) (h : step s i = some s') :
    Traced (ListenerOrigin inputs) (s'.manager.mListenerDescList.map ListenerDesc.iHandle)
      s'.written := by
  have hnothing : ∀ c ∈ ([] : List RefCommand), ∀ handle, RefCommand.taken c = some handle →
      ListenerOrigin inputs handle := fun _ hmem => absurd hmem List.not_mem_nil
  cases i with
  | death cookie =>
      simp only [step, Option.map_eq_some_iff] at h
      rcases h with ⟨_, hdeath, rfl⟩
      rcases binderDeath_cases hdeath with ⟨desc, _, _, rfl⟩
      unfold inputBinderDeath
      by_cases hbound : desc.iHandle ≠ 0
      · rw [if_pos hbound]
        exact discard_traced hs desc
      · rw [if_neg hbound]
        exact traced_append hs (fun _ hmem => Or.inl hmem) hnothing
  | transact alloc dup mem txn io =>
      simp only [step, Option.map_eq_some_iff] at h
      rcases h with ⟨res, hres, rfl⟩
      have hcases := onTransact_cases hres
      rcases res with ⟨status, reply, writes, m'⟩
      cases hcases with
      | unchanged => exact traced_append hs (fun _ hmem => Or.inl hmem) hnothing
      | deleting iUid _ =>
          rcases delListener_cases iUid s.manager with ⟨_, hdel⟩ | ⟨desc, _, _, _, hdel⟩
          · rw [hdel]
            exact traced_append hs (fun _ hmem => Or.inl hmem) hnothing
          · rw [hdel]
            exact discard_traced hs desc
      | adding req addr death hadding =>
          by_cases hzero : (req.desc dup addr death).iHandle = 0
          · rw [addListener_rejected _ hzero]
            exact traced_append hs (fun _ hmem => Or.inl hmem) hnothing
          · rcases hadding.read with ⟨msg, hpolicy, hread⟩
            have horigin : ListenerOrigin inputs req.iHandle :=
              ⟨alloc, dup, mem, txn, io, hi, hadding.code, readAddListener_handle hpolicy hread hzero⟩
            rw [addListener_listed _ hzero]
            refine traced_append hs (fun handle hmem => ?_) fun c hmem handle htaken => ?_
            · rw [List.map_append] at hmem
              rcases List.mem_append.mp hmem with hold | hnew
              · exact Or.inl hold
              · rw [List.map_singleton, List.mem_singleton] at hnew
                rw [hnew]
                exact Or.inr (Or.inr horigin)
            · simp only [List.mem_cons, List.not_mem_nil, or_false] at hmem
              rcases hmem with rfl | rfl
              · rw [← Option.some.inj htaken]
                exact horigin
              · rw [← Option.some.inj htaken]
                exact horigin

end Listeners

theorem traced_nil (origin : UInt32 → Prop) : Traced origin [] [] :=
  ⟨fun _ hmem => absurd hmem List.not_mem_nil, fun _ hmem => absurd hmem List.not_mem_nil⟩

/-- In every run of either manager, every handle it keeps and every one it has
    asked the driver for came in an object of a request that it handled. -/
theorem handles_received :
    (∀ inputs s, run ServiceManager.step ServiceManager.State.init inputs = some s →
      Traced (RegistryOrigin inputs) (s.svclist.map ServiceManager.SvcInfo.handle) s.written) ∧
    ∀ inputs s, run InputManager.step InputManager.State.init inputs = some s →
      Traced (ListenerOrigin inputs)
        (s.manager.mListenerDescList.map InputManager.ListenerDesc.iHandle) s.written :=
  ⟨fun inputs s hrun => run_invariant_mem ServiceManager.step _ inputs (registry_traced inputs) _ s
      (traced_nil _) hrun,
    fun inputs s hrun => run_invariant_mem InputManager.step _ inputs (listeners_traced inputs) _ s
      (traced_nil _) hrun⟩

/-- One registration, and one listener. -/
theorem handles_received_sample :
    (∃ s, run ServiceManager.step ServiceManager.State.init
        [ServiceManager.registrationOf 1 [0x61, 0, 0, 0] 5] = some s ∧
      s.svclist.map ServiceManager.SvcInfo.handle = [5] ∧
        RegistryOrigin [ServiceManager.registrationOf 1 [0x61, 0, 0, 0] 5] 5) ∧
    ∃ s, run InputManager.step InputManager.State.init [InputManager.additionOf 1 5 10] = some s ∧
      s.manager.mListenerDescList.map InputManager.ListenerDesc.iHandle = [5] ∧
        ListenerOrigin [InputManager.additionOf 1 5 10] 5 := by
  have hregistry : (run ServiceManager.step ServiceManager.State.init
      [ServiceManager.registrationOf 1 [0x61, 0, 0, 0] 5]).map
      (fun s => s.svclist.map ServiceManager.SvcInfo.handle) = some [5] := by decide +kernel
  have hlisteners : (run InputManager.step InputManager.State.init
      [InputManager.additionOf 1 5 10]).map
      (fun s => s.manager.mListenerDescList.map InputManager.ListenerDesc.iHandle) = some [5] := by
    decide +kernel
  rcases Option.map_eq_some_iff.mp hregistry with ⟨s, hrun, hkept⟩
  rcases Option.map_eq_some_iff.mp hlisteners with ⟨s', hrun', hkept'⟩
  refine ⟨⟨s, hrun, hkept, ?_⟩, s', hrun', hkept', ?_⟩
  · refine (handles_received.1 _ s hrun).kept 5 ?_ (by decide)
    rw [hkept]
    exact List.mem_cons_self
  · refine (handles_received.2 _ s' hrun').kept 5 ?_ (by decide)
    rw [hkept']
    exact List.mem_cons_self

end Frameworks

end ZeusOS
