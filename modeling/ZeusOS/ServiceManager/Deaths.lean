import ZeusOS.Binder.Stream
import ZeusOS.ServiceManager.Registry

/-!
# Death Notices

The service manager together with a driver that keeps its side of the bargain:
it counts the manager's references, remembers which cookies were linked to
which handle, and when a handle dies announces it with every cookie still
linked. A link goes when it is delivered, or when the last reference on its
handle is given back.

What should happen is that the entries bound to the dead handle are unbound and
nothing else. But a cookie names an entry, not the handle it was linked for,
and the callback clears whatever handle the entry has by then. An entry can
only have moved on while its old link stayed if another entry kept the old
handle referenced; then the old provider's death unbinds the new one.

The accounts are right all the same. Every bound entry is linked to its handle
and holds one reference on it, in every reachable state, wrong deaths included;
that is `Linked`, carried through each step with the dying handle as a
parameter, since in the middle of a death its links are already gone.
`deaths_unbind_iff` then says when the deaths of a run do what they should, and
`noStaleLink_of_unshared` from which requests this follows.

## Main definitions

* `Driver`, `Driver.take`: References and links, and what commands do to them.
* `deaths`: The callbacks of a list of cookies.
* `World`, `Happening`, `happen`: The manager and the driver.
* `Linked`: Every bound entry is linked and referenced.
* `Unbinds`: A death does what it should.
* `NoStaleLink`: No entry that has moved on is linked to the dying handle.
* `Unshared`: A registration that leaves no such link behind.

## Theorems

* `execute_deadBinders`: The parser makes these callbacks.
* `deaths_eq`: What the callbacks do to the list.
* `happen_linked`: The accounts are right after every step.
* `deaths_unbind_iff`: When deaths unbind what they should.
* `noStaleLink_of_unshared`: Requests that leave no stale link.
-/

namespace ZeusOS

namespace ServiceManager

open Foundation.Words Foundation.Runs Binder

/-- The driver's books for one process: its strong references by handle, and
    the death links as pairs of handle and cookie. -/
structure Driver where
  strong : UInt32 → Nat
  links : List (UInt32 × UInt32)

/-- The links of a handle removed. -/
def Driver.unlink (d : Driver) (handle : UInt32) : Driver :=
  { d with links := d.links.filter fun link => link.1 ≠ handle }

/-- The cookies linked to a handle. -/
def Driver.linkedTo (d : Driver) (handle : UInt32) : List UInt32 :=
  (d.links.filter fun link => link.1 = handle).map Prod.snd

def Driver.take (d : Driver) : RefCommand → Driver
  | .acquire h => { d with strong := Function.update d.strong h (d.strong h + 1) }
  | .release h =>
    let d := { d with strong := Function.update d.strong h (d.strong h - 1) }
    if d.strong h = 0 then d.unlink h else d
  | .requestDeathNotification h cookie => { d with links := d.links ++ [(h, cookie)] }

def Driver.takeAll (d : Driver) (writes : List RefCommand) : Driver := writes.foldl Driver.take d

/-- The callbacks of some cookies, one after another. -/
def deaths : List UInt32 → List SvcInfo → Option (List RefCommand × List SvcInfo)
  | [], svclist => some ([], svclist)
  | cookie :: cookies, svclist =>
    (binderDeath cookie svclist).bind fun (writes, svclist) =>
      (deaths cookies svclist).map fun (writes', svclist) => (writes ++ writes', svclist)

/-- The manager's list and the driver's books. -/
structure World where
  svclist : List SvcInfo
  driver : Driver

def World.init : World := { svclist := [], driver := { strong := fun _ => 0, links := [] } }

/-- A transaction for the manager, or the death of a handle, announced with the
    linked cookies in some order. -/
inductive Happening where
  | transact (alloc : Allocator) (mem : Mapping) (txn : Txn) (io : IoData)
  | die (handle : UInt32) (cookies : List UInt32)

def happen (w : World) : Happening → Option World
  | .transact alloc mem txn io =>
    (onTransact alloc txn (Parcel.bioInitFromTxn mem txn) (Parcel.new io) w.svclist).map fun h =>
      { svclist := h.state, driver := w.driver.takeAll h.writes }
  | .die handle cookies =>
    if handle ≠ 0 ∧ cookies.isPerm (w.driver.linkedTo handle) then
      (deaths cookies w.svclist).map fun (writes, svclist) =>
        { svclist, driver := (w.driver.unlink handle).takeAll writes }
    else none

/-- The reference commands among some events. -/
def refCommandsOf (evs : List Event) : List RefCommand :=
  evs.filterMap fun
    | .wrote (.ref c) => some c
    | _ => none

theorem refCommandsOf_append (evs evs' : List Event) :
    refCommandsOf (evs ++ evs') = refCommandsOf evs ++ refCommandsOf evs' := List.filterMap_append

theorem refCommandsOf_refEvents (writes : List RefCommand) :
    refCommandsOf (refEvents writes) = writes := by
  unfold refCommandsOf refEvents
  rw [List.filterMap_map]
  exact List.filterMap_some

/-- These are the callbacks the parser makes when it is handed the cookies. -/
theorem execute_deadBinders (alloc : Allocator) (io : IoData) (mem : Mapping)
    (cookies : List UInt32) (l : Looper (List SvcInfo)) :
    (execute (services alloc io) mem (cookies.map Return.deadBinder) l).map
        (fun r => (refCommandsOf r.1, r.2.state)) = deaths cookies l.state := by
  induction cookies generalizing l with
  | nil => rfl
  | cons cookie cookies ih =>
      simp only [List.map_cons, execute, Return.action, perform, deaths]
      change (((binderDeath cookie l.state).map _).bind _).map _ = _
      rcases binderDeath cookie l.state with _ | ⟨writes, svclist⟩
      · rfl
      · simp only [Option.map_some, Option.bind_some, Option.map_map]
        rw [← ih { l with state := svclist }, Option.map_map]
        congr 1
        funext r
        simp only [Function.comp_apply, refCommandsOf_append]
        change (refCommandsOf (refEvents writes) ++ _, _) = _
        rw [refCommandsOf_refEvents]

/-- The entries with these cookies unbound. -/
def clear (p : UInt32 → Bool) (svclist : List SvcInfo) : List SvcInfo :=
  svclist.map fun e => if p e.cookie then { e with handle := 0 } else e

/-- The entries bound to a handle unbound. -/
def unbound (handle : UInt32) (svclist : List SvcInfo) : List SvcInfo :=
  svclist.map fun e => if e.handle = handle then { e with handle := 0 } else e

/-- Two records with one cookie are in one place. -/
theorem cookie_inj {e e' : SvcInfo} (h : e.cookie = e'.cookie) : e.addr = e'.addr := by
  unfold SvcInfo.cookie at h
  exact (UInt32.add_left_inj 8).mp h

/-- A death callback clears the entry its cookie names. -/
theorem binderDeath_eq {cookie : UInt32} {svclist : List SvcInfo} (hdistinct : Distinct svclist)
    {si : SvcInfo} (hmem : si ∈ svclist) (hcookie : si.cookie = cookie) :
    binderDeath cookie svclist
      = some (unbinding si, clear (fun c => c == cookie) svclist) := by
  have hfind : ∃ res, binderDeath cookie svclist = some res := by
    unfold binderDeath
    rcases hopt : svclist.find? (fun si => si.cookie = cookie) with _ | e
    · have := List.find?_eq_none.mp hopt si hmem
      simp only [hcookie, decide_true, not_true] at this
    · rw [hopt]
      exact ⟨_, rfl⟩
  rcases hfind with ⟨⟨writes, svclist'⟩, hdeath⟩
  rcases binderDeath_cases hdeath with ⟨e, he, hecookie, rfl, rfl⟩
  have hsame : e = si := List.inj_on_of_nodup_map hdistinct he hmem
    (cookie_inj (hecookie.trans hcookie.symm))
  rw [hdeath, hsame, update_handle hdistinct hmem, clear]
  congr 2
  refine List.map_congr_left fun e' _ => ?_
  -- Records with one cookie are one record.
  by_cases haddr : e'.addr = si.addr
  · rw [if_pos haddr, if_pos]
    rw [beq_iff_eq, ← hcookie, SvcInfo.cookie, haddr, SvcInfo.cookie]
  · rw [if_neg haddr, if_neg]
    rw [beq_iff_eq, ← hcookie]
    exact fun hc => haddr (cookie_inj hc)

theorem clear_cookies (p : UInt32 → Bool) (svclist : List SvcInfo) :
    (clear p svclist).map SvcInfo.cookie = svclist.map SvcInfo.cookie :=
  Foundation.Keyed.map_field SvcInfo.cookie _ _ fun _ _ _ => rfl

theorem clear_distinct {p : UInt32 → Bool} {svclist : List SvcInfo} (h : Distinct svclist) :
    Distinct (clear p svclist) := by
  have haddr : (clear p svclist).map SvcInfo.addr = svclist.map SvcInfo.addr :=
    Foundation.Keyed.map_field SvcInfo.addr _ _ fun _ _ _ => rfl
  unfold Distinct
  rwa [haddr]

theorem clear_clear (p q : UInt32 → Bool) (svclist : List SvcInfo) :
    clear p (clear q svclist) = clear (fun c => q c || p c) svclist := by
  simp only [clear, List.map_map]
  refine List.map_congr_left fun e _ => ?_
  rw [Function.comp_apply]
  by_cases hq : q e.cookie = true
  · have hor : (q e.cookie || p e.cookie) = true := by
      rw [hq]
      rfl
    rw [if_pos hq, if_pos hor]
    split <;> rfl
  · rw [if_neg hq]
    simp only [hq, Bool.false_or]

/-- The callbacks of a list of cookies clear the entries named, in whatever
    order they come and however often. -/
theorem deaths_eq (cookies : List UInt32) {svclist : List SvcInfo} (hdistinct : Distinct svclist)
    (hnamed : ∀ c ∈ cookies, c ∈ svclist.map SvcInfo.cookie) :
    ∃ writes, deaths cookies svclist = some (writes, clear (fun c => cookies.contains c) svclist) := by
  -- The induction is on the cookies; the list that is left names the same ones.
  induction cookies generalizing svclist with
  | nil =>
      refine ⟨[], ?_⟩
      simp only [deaths, clear, List.contains_nil, Bool.false_eq_true, if_false, List.map_id']
  | cons cookie cookies ih =>
      rcases List.mem_map.mp (hnamed cookie List.mem_cons_self) with ⟨si, hmem, hcookie⟩
      rcases ih (clear_distinct (p := fun c => c == cookie) hdistinct) (fun c hc => by
        rw [clear_cookies]
        exact hnamed c (List.mem_cons_of_mem _ hc)) with ⟨writes, hrest⟩
      refine ⟨unbinding si ++ writes, ?_⟩
      rw [deaths, binderDeath_eq hdistinct hmem hcookie, Option.bind_some]
      simp only [hrest, Option.map_some, clear_clear, List.contains_cons]

/-- The accounts: records apart, a reference for every bound entry and no more,
    every bound entry linked to its handle, and no link without an entry. The
    handle that is just dying has lost its links already. -/
structure Linked (dying : UInt32) (w : World) : Prop where
  distinct : Distinct w.svclist
  referenced : ∀ h, h ≠ 0 → w.driver.strong h = entries w.svclist h
  linked : ∀ e ∈ w.svclist, e.handle ≠ 0 → e.handle ≠ dying →
    (e.handle, e.cookie) ∈ w.driver.links
  named : ∀ link ∈ w.driver.links, link.2 ∈ w.svclist.map SvcInfo.cookie

theorem takeAll_append (d : Driver) (ws ws' : List RefCommand) :
    d.takeAll (ws ++ ws') = (d.takeAll ws).takeAll ws' := List.foldl_append

theorem release_strong (d : Driver) (h k : UInt32) :
    (d.take (.release h)).strong k = if k = h then d.strong h - 1 else d.strong k := by
  have hupdate : (Function.update d.strong h (d.strong h - 1)) k
      = if k = h then d.strong h - 1 else d.strong k := Function.update_apply _ _ _ _
  rw [← hupdate]
  unfold Driver.take
  -- Removing links does not touch the references.
  by_cases hzero : Function.update d.strong h (d.strong h - 1) h = 0
  · simp only [if_pos hzero, Driver.unlink]
  · simp only [if_neg hzero]

/-- A link outlives a release unless its handle has no reference left. -/
theorem release_links (d : Driver) (h : UInt32) (link : UInt32 × UInt32) :
    link ∈ (d.take (.release h)).links ↔ link ∈ d.links ∧ (link.1 = h → d.strong h - 1 ≠ 0) := by
  unfold Driver.take
  simp only [Function.update_self]
  by_cases hzero : d.strong h - 1 = 0
  · rw [if_pos hzero]
    simp only [Driver.unlink, List.mem_filter, ne_eq, decide_not, Bool.not_eq_true',
      decide_eq_false_iff_not, hzero, not_true, imp_false]
  · rw [if_neg hzero]
    simp only [ne_eq, hzero, not_false_eq_true, implies_true, and_true]

/-- The entries after one of them was bound or unbound. -/
theorem mem_update_handle {svclist : List SvcInfo} {si e : SvcInfo} {handle : UInt32}
    (h : e ∈ update svclist { si with handle }) :
    e = { si with handle } ∨ e ∈ svclist ∧ e.addr ≠ si.addr := by
  unfold update at h
  rcases List.mem_map.mp h with ⟨e', he', rfl⟩
  by_cases haddr : e'.addr = si.addr
  · exact Or.inl (by rw [if_pos haddr])
  · rw [if_neg haddr]
    exact Or.inr ⟨he', haddr⟩

theorem update_cookies {svclist : List SvcInfo} {si : SvcInfo} (handle : UInt32) :
    (update svclist { si with handle }).map SvcInfo.cookie = svclist.map SvcInfo.cookie :=
  Foundation.Keyed.map_field SvcInfo.cookie _ _ fun _ _ haddr => congrArg (· + 8) haddr.symm

theorem entries_pos {svclist : List SvcInfo} {e : SvcInfo} (hmem : e ∈ svclist) :
    0 < entries svclist e.handle :=
  List.countP_pos_iff.mpr ⟨e, hmem, beq_self_eq_true _⟩

theorem takeAll_unbinding_bound (d : Driver) {si : SvcInfo} (hbound : si.handle ≠ 0) :
    d.takeAll (unbinding si) = d.take (.release si.handle) := by
  rw [unbinding, if_pos hbound]
  rfl

theorem takeAll_unbinding_free (d : Driver) {si : SvcInfo} (hfree : si.handle = 0) :
    d.takeAll (unbinding si) = d := by
  rw [unbinding, if_neg (not_not.mpr hfree)]
  rfl

/-- Unbinding an entry gives back the one reference it held. -/
theorem linked_unbind {dying : UInt32} {w : World} {si : SvcInfo} (hw : Linked dying w)
    (hmem : si ∈ w.svclist) :
    Linked dying { svclist := update w.svclist { si with handle := 0 }
                   driver := w.driver.takeAll (unbinding si) } := by
  have hdistinct := distinct_update { si with handle := 0 } hw.distinct
  have hcount : ∀ h, h ≠ 0 → entries (update w.svclist { si with handle := 0 }) h
      + (if si.handle = h then 1 else 0) = entries w.svclist h := by
    intro h hh
    rw [entries_update hw.distinct hmem, if_neg (Ne.symm hh), Nat.add_zero]
  by_cases hfree : si.handle = 0
  · -- The entry held nothing, and nothing is said to the driver.
    rw [takeAll_unbinding_free w.driver hfree]
    refine ⟨hdistinct, fun h hh => ?_, fun e he hne hdying => ?_, fun link hlink => ?_⟩
    · have := hcount h hh
      rw [if_neg fun hc => hh (hc.symm.trans hfree)] at this
      rw [hw.referenced h hh]
      exact this.symm
    · rcases mem_update_handle he with rfl | ⟨hin, _⟩
      · exact absurd rfl hne
      · exact hw.linked e hin hne hdying
    · rw [update_cookies]
      exact hw.named link hlink
  -- The entry was bound, and its reference is given back.
  · have hreferenced : ∀ h, h ≠ 0 → (w.driver.take (.release si.handle)).strong h
        = entries (update w.svclist { si with handle := 0 }) h := by
      intro h hh
      have := hcount h hh
      have := hw.referenced h hh
      rw [release_strong]
      by_cases heq : h = si.handle
      · subst heq
        rw [if_pos rfl] at *
        omega
      · rw [if_neg heq]
        rw [if_neg (Ne.symm heq)] at *
        omega
    rw [takeAll_unbinding_bound w.driver hfree]
    refine ⟨hdistinct, hreferenced, fun e he hne hdying => ?_, fun link hlink => ?_⟩
    · rcases mem_update_handle he with rfl | ⟨hin, _⟩
      · exact absurd rfl hne
      · -- If the entry shares the handle, its own reference keeps the links.
        refine (release_links _ _ _).mpr ⟨hw.linked e hin hne hdying, fun hsame => ?_⟩
        simp only at hsame
        have hstrong := hreferenced e.handle hne
        rw [release_strong, if_pos hsame] at hstrong
        have hpos : 0 < entries (update w.svclist { si with handle := 0 }) e.handle :=
          entries_pos he
        omega
    · rw [update_cookies]
      exact hw.named link ((release_links _ _ _).mp hlink).1

/-- Registering takes one reference and one link. -/
theorem registration_driver (d : Driver) (handle : UInt32) (si : SvcInfo) :
    d.takeAll (registration handle si)
      = { strong := Function.update d.strong handle (d.strong handle + 1)
          links := d.links ++ [(handle, si.cookie)] } := rfl

/-- Binding an entry that has no handle takes the reference it needs. -/
theorem linked_bind {w : World} {si : SvcInfo} (handle : UInt32) (hw : Linked 0 w)
    (hmem : si ∈ w.svclist) (hfree : si.handle = 0) (hh : handle ≠ 0) :
    Linked 0 { svclist := update w.svclist { si with handle }
               driver := w.driver.takeAll (registration handle si) } := by
  rw [registration_driver]
  refine ⟨distinct_update _ hw.distinct, fun h hne => ?_, fun e he hne _ => ?_,
    fun link hlink => ?_⟩
  -- One entry more for the handle, and one reference more.
  · have hcount := entries_update hw.distinct hmem handle h
    rw [hfree, if_neg (Ne.symm hne), Nat.add_zero] at hcount
    have hstrong := hw.referenced h hne
    simp only [Function.update_apply]
    by_cases heq : h = handle
    · subst heq
      rw [if_pos rfl] at *
      omega
    · rw [if_neg heq]
      rw [if_neg (Ne.symm heq)] at hcount
      omega
  · -- The entry itself has the new link, the others keep theirs.
    rcases mem_update_handle he with rfl | ⟨hin, _⟩
    · exact List.mem_append_right _ (List.mem_singleton_self _)
    · exact List.mem_append_left _ (hw.linked e hin hne hne)
  · rw [update_cookies]
    rcases List.mem_append.mp hlink with hin | hnew
    · exact hw.named link hin
    · rw [List.mem_singleton.mp hnew]
      exact List.mem_map_of_mem hmem

/-- So does a new entry. -/
theorem linked_insert {w : World} {si : SvcInfo} (hw : Linked 0 w)
    (hfresh : si.addr ∉ w.svclist.map SvcInfo.addr) (hh : si.handle ≠ 0) :
    Linked 0 { svclist := si :: w.svclist
               driver := w.driver.takeAll (registration si.handle si) } := by
  rw [registration_driver]
  refine ⟨distinct_cons hw.distinct hfresh, fun h hne => ?_, fun e he hne _ => ?_,
    fun link hlink => ?_⟩
  · have hstrong := hw.referenced h hne
    simp only [Function.update_apply, entries, List.countP_cons, beq_iff_eq] at *
    by_cases heq : h = si.handle
    · rw [if_pos heq, if_pos heq.symm, ← heq, hstrong]
    · rw [if_neg heq, if_neg (Ne.symm heq), hstrong, Nat.add_zero]
  -- The new entry is linked by its own registration.
  · rcases List.mem_cons.mp he with rfl | hin
    · exact List.mem_append_right _ (List.mem_singleton_self _)
    · exact List.mem_append_left _ (hw.linked e hin hne hne)
  · rw [List.map_cons]
    rcases List.mem_append.mp hlink with hin | hnew
    · exact List.mem_cons_of_mem _ (hw.named link hin)
    · rw [List.mem_singleton.mp hnew]
      exact List.mem_cons_self

/-- Binding an entry anew is unbinding it and binding it. -/
theorem update_update (svclist : List SvcInfo) (si : SvcInfo) (handle handle' : UInt32) :
    update (update svclist { si with handle }) { si with handle := handle' }
      = update svclist { si with handle := handle' } := by
  simp only [update, List.map_map]
  refine List.map_congr_left fun e _ => ?_
  by_cases h : e.addr = si.addr
  · rw [Function.comp_apply, if_pos h, if_pos h, if_pos rfl]
  · rw [Function.comp_apply, if_neg h, if_neg h]

theorem added_linked {w : World} {alloc : Allocator} {name : List UInt8} {ref : BinderRef}
    {res : Int32} {writes : List RefCommand} {svclist' : List SvcInfo} (hw : Linked 0 w)
    (h : Added alloc name ref w.svclist res writes svclist') :
    Linked 0 { svclist := svclist', driver := w.driver.takeAll writes } := by
  cases h with
  | invalid _ => exact hw
  | outOfMemory _ _ _ => exact hw
  | bound si hvalid hfind =>
      -- The source unbinds the entry first, and so does the proof.
      have hmem := (findSvc_some hfind).1
      have hfree : { si with handle := 0 } ∈ update w.svclist { si with handle := 0 } :=
        List.mem_map.mpr ⟨si, hmem, if_pos rfl⟩
      have := linked_bind ref.handle (linked_unbind hw hmem) hfree rfl
        fun hc => hvalid (Or.inl hc)
      rw [takeAll_append, ← update_update w.svclist si 0 ref.handle]
      exact this
  | inserted addr si hvalid hfind hmalloc hnew =>
      rcases newSvc_some hvalid hnew with ⟨haddr, hhandle, _⟩
      rw [← hhandle]
      refine linked_insert hw ?_ fun hc => hvalid (Or.inl (hhandle ▸ hc))
      rw [haddr]
      exact alloc.fresh _ _ _ hmalloc

/-- Each callback of a dying handle gives back what its entry held. -/
theorem deaths_linked {dying : UInt32} (cookies : List UInt32) {w : World}
    {writes : List RefCommand} {svclist' : List SvcInfo} (hw : Linked dying w)
    (h : deaths cookies w.svclist = some (writes, svclist')) :
    Linked dying { svclist := svclist', driver := w.driver.takeAll writes } := by
  induction cookies generalizing w writes with
  | nil =>
      simp only [deaths, Option.some.injEq, Prod.mk.injEq] at h
      rcases h with ⟨rfl, rfl⟩
      exact hw
  | cons cookie cookies ih =>
      simp only [deaths, Option.bind_eq_some_iff, Option.map_eq_some_iff, Prod.exists,
        Prod.mk.injEq] at h
      rcases h with ⟨ws, svclist, hdeath, ws', _, hrest, rfl, rfl⟩
      rcases binderDeath_cases hdeath with ⟨si, hmem, _, rfl, rfl⟩
      rw [takeAll_append]
      -- The links of the dying handle are not needed for this.
      exact ih (linked_unbind hw hmem) hrest

theorem mem_linkedTo (d : Driver) (handle cookie : UInt32) :
    cookie ∈ d.linkedTo handle ↔ (handle, cookie) ∈ d.links := by
  unfold Driver.linkedTo
  simp only [List.mem_map, List.mem_filter, decide_eq_true_eq, Prod.exists]
  constructor
  · rintro ⟨h, c, ⟨hmem, rfl⟩, rfl⟩
    exact hmem
  · exact fun h => ⟨handle, cookie, ⟨h, rfl⟩, rfl⟩

theorem unlink_linked {w : World} (hw : Linked 0 w) (handle : UInt32) :
    Linked handle { w with driver := w.driver.unlink handle } := by
  refine ⟨hw.distinct, hw.referenced, fun e he hne hdying => ?_, fun link hlink => ?_⟩
  · refine List.mem_filter.mpr ⟨hw.linked e he hne hne, ?_⟩
    rw [decide_eq_true_eq]
    exact hdying
  · exact hw.named link (List.mem_of_mem_filter hlink)

/-- What the death of a handle does to the list: the entries linked to it are
    cleared, whatever they are bound to. -/
theorem die_svclist {w w' : World} {handle : UInt32} {cookies : List UInt32} (hw : Linked 0 w)
    (h : happen w (.die handle cookies) = some w') :
    handle ≠ 0 ∧ (∀ c, cookies.contains c = true ↔ (handle, c) ∈ w.driver.links) ∧
      w'.svclist = clear (fun c => cookies.contains c) w.svclist ∧ Linked handle w' := by
  simp only [happen, Option.ite_none_right_eq_some, Option.map_eq_some_iff, Prod.exists] at h
  rcases h with ⟨⟨hne, hperm⟩, writes, svclist', hdeaths, rfl⟩
  have hmem : ∀ c, c ∈ cookies ↔ (handle, c) ∈ w.driver.links := by
    intro c
    rw [← mem_linkedTo]
    exact (List.isPerm_iff.mp hperm).mem_iff
  -- The cookies announced are those that were linked, in any order.
  have hcontains : ∀ c, cookies.contains c = true ↔ (handle, c) ∈ w.driver.links := by
    intro c
    rw [List.contains_iff_mem, hmem]
  rcases deaths_eq cookies hw.distinct fun c hc => hw.named _ ((hmem c).mp hc) with ⟨ws, heq⟩
  rw [heq, Option.some.injEq, Prod.mk.injEq] at hdeaths
  rcases hdeaths with ⟨rfl, rfl⟩
  exact ⟨hne, hcontains, rfl, deaths_linked cookies (unlink_linked hw handle) heq⟩

/-- The accounts are right after every step, rightly made or not. -/
theorem happen_linked (w : World) (i : Happening) (w' : World) (hw : Linked 0 w)
    (h : happen w i = some w') : Linked 0 w' := by
  cases i with
  | transact alloc mem txn io =>
      simp only [happen, Option.map_eq_some_iff] at h
      rcases h with ⟨res, hres, rfl⟩
      have hcases := onTransact_cases hres
      rcases res with ⟨status, reply, writes, svclist'⟩
      cases hcases with
      | unchanged => exact hw
      | added _ _ _ _ _ _ _ _ _ hadd => exact added_linked hw hadd
  | die handle cookies =>
      rcases die_svclist hw h with ⟨_, hcontains, hlist, hw'⟩
      refine ⟨hw'.distinct, hw'.referenced, fun e he hne _ => ?_, hw'.named⟩
      -- Whatever was bound to the dead handle was linked to it, and is cleared.
      refine hw'.linked e he hne fun hdying => ?_
      rw [hlist] at he
      rcases List.mem_map.mp he with ⟨e', he', rfl⟩
      by_cases hc : cookies.contains e'.cookie = true
      · rw [if_pos hc] at hne
        exact hne rfl
      · rw [if_neg hc] at hne hdying
        have := hw.linked e' he' hne hne
        rw [hdying, ← hcontains] at this
        exact hc this

/-- A death does what it should: exactly the entries bound to the handle are
    unbound, and no reference on another handle is touched. -/
def Unbinds (w : World) : Happening → Prop
  | .transact _ _ _ _ => True
  | .die handle cookies => ∀ w', happen w (.die handle cookies) = some w' →
    w'.svclist = unbound handle w.svclist ∧
      ∀ h, h ≠ 0 → h ≠ handle → w'.driver.strong h = w.driver.strong h

/-- No entry that is bound to another handle by now is still linked to the one
    that dies. -/
def NoStaleLink (w : World) : Happening → Prop
  | .transact _ _ _ _ => True
  | .die handle _ => ∀ e ∈ w.svclist, (handle, e.cookie) ∈ w.driver.links →
    e.handle = handle ∨ e.handle = 0

theorem entries_unbound (svclist : List SvcInfo) (handle h : UInt32) (hh : h ≠ 0)
    (hne : h ≠ handle) : entries (unbound handle svclist) h = entries svclist h := by
  unfold entries unbound
  rw [List.countP_map]
  refine List.countP_congr fun e _ => ?_
  rw [Function.comp_apply, beq_iff_eq, beq_iff_eq]
  by_cases heq : e.handle = handle
  · rw [if_pos heq]
    exact ⟨fun hc => absurd hc.symm hh, fun hc => absurd (hc.symm.trans heq) hne⟩
  · rw [if_neg heq]

/-- A death does what it should exactly when no stale link leads from it. -/
theorem unbinds_iff_noStaleLink {w w' : World} {i : Happening} (hw : Linked 0 w)
    (h : happen w i = some w') : Unbinds w i ↔ NoStaleLink w i := by
  cases i with
  | transact alloc mem txn io => exact Iff.rfl
  | die handle cookies =>
      rcases die_svclist hw h with ⟨hne, hcontains, hlist, _⟩
      have hw' := happen_linked w _ w' hw h
      constructor
      · -- The entry at the end of the link was cleared, so it should have been.
        intro hunbinds e he hlink
        have heq := (hunbinds w' h).1
        rw [hlist, clear, unbound, List.map_inj_left] at heq
        have := heq e he
        rw [if_pos ((hcontains e.cookie).mpr hlink)] at this
        by_cases hhandle : e.handle = handle
        · exact Or.inl hhandle
        · rw [if_neg hhandle] at this
          exact Or.inr (congrArg SvcInfo.handle this).symm
      · intro hstale w'' h''
        rw [h, Option.some.injEq] at h''
        subst h''
        have heq : w'.svclist = unbound handle w.svclist := by
          rw [hlist]
          refine List.map_congr_left fun e he => ?_
          by_cases hc : cookies.contains e.cookie = true
          · rw [if_pos hc]
            rcases hstale e he ((hcontains _).mp hc) with hbound | hfree
            · rw [if_pos hbound]
            · -- An entry that was free already stays as it is.
              rw [if_neg fun hc => hne (by rw [← hc, hfree]), ← hfree]
          · -- An entry without a link to the handle is not bound to it.
            rw [if_neg hc, if_neg]
            intro hbound
            have := hw.linked e he (hbound ▸ hne) (hbound ▸ hne)
            rw [hbound, ← hcontains] at this
            exact hc this
        -- Equal lists have equal counts, and the counts are the references.
        refine ⟨heq, fun k hk hkne => ?_⟩
        rw [hw'.referenced k hk, hw.referenced k hk, heq, entries_unbound _ _ _ hk hkne]

theorem linked_init : Linked 0 World.init :=
  ⟨List.nodup_nil, fun _ _ => rfl, fun _ he => absurd he List.not_mem_nil,
    fun _ hlink => absurd hlink List.not_mem_nil⟩

/-- In a run, every death unbinds exactly what it should if and only if none
    comes while an entry that has moved on to another handle is still linked to
    the one that dies. -/
theorem deaths_unbind_iff (events : List Happening) (w : World)
    (hrun : run happen World.init events = some w) :
    Along happen Unbinds World.init events ↔ Along happen NoStaleLink World.init events := by
  -- Step by step, in states where the accounts are right.
  refine along_congr fun before i after t heq ht => ?_
  rw [heq, run_append, ht, Option.bind_some, run_cons, Option.bind_eq_some_iff] at hrun
  rcases hrun with ⟨t', hi, _⟩
  exact unbinds_iff_noStaleLink
    (run_invariant happen (Linked 0) happen_linked World.init t before linked_init ht) hi

/-- Nothing but a link to its own handle leads to an entry. -/
def Exclusive (w : World) : Prop :=
  ∀ link ∈ w.driver.links, link.1 ≠ 0 ∧ ∀ e ∈ w.svclist, e.cookie = link.2 → e.handle = link.1

/-- A registration takes a bound name over for another handle only if no other
    name is bound to the old one. -/
def Unshared (w : World) : Happening → Prop
  | .transact _ mem txn _ => ∀ msg name ref si,
    (Parcel.bioInitFromTxn mem txn).getUint32 = some (0, msg) →
    readAddService txn msg = some (some (name, ref)) →
    findSvc name ref.len w.svclist = some (some si) →
      si.handle = 0 ∨ si.handle = ref.handle ∨ entries w.svclist si.handle = 1
  | .die _ _ => True

theorem unbinding_links {d : Driver} {si : SvcInfo} {link : UInt32 × UInt32}
    (h : link ∈ (d.takeAll (unbinding si)).links) :
    link ∈ d.links ∧ (si.handle ≠ 0 → link.1 = si.handle → d.strong si.handle - 1 ≠ 0) := by
  by_cases hfree : si.handle = 0
  · rw [takeAll_unbinding_free d hfree] at h
    exact ⟨h, fun hc => absurd hfree hc⟩
  · rw [takeAll_unbinding_bound d hfree, release_links] at h
    exact ⟨h.1, fun _ => h.2⟩

theorem deaths_links (cookies : List UInt32) {svclist svclist' : List SvcInfo} {d : Driver}
    {writes : List RefCommand} (h : deaths cookies svclist = some (writes, svclist')) :
    (d.takeAll writes).links ⊆ d.links := by
  induction cookies generalizing svclist d writes with
  | nil =>
      simp only [deaths, Option.some.injEq, Prod.mk.injEq] at h
      rw [← h.1]
      exact List.Subset.refl _
  | cons cookie cookies ih =>
      simp only [deaths, Option.bind_eq_some_iff, Option.map_eq_some_iff, Prod.exists,
        Prod.mk.injEq] at h
      rcases h with ⟨ws, svclist, hdeath, ws', _, hrest, rfl, rfl⟩
      rcases binderDeath_cases hdeath with ⟨si, _, _, rfl, _⟩
      rw [takeAll_append]
      exact List.Subset.trans (ih hrest) fun link hlink => (unbinding_links hlink).1

theorem added_exclusive {w : World} {alloc : Allocator} {name : List UInt8} {ref : BinderRef}
    {res : Int32} {writes : List RefCommand} {svclist' : List SvcInfo} (hw : Linked 0 w)
    (hex : Exclusive w) (hunshared : ∀ si, findSvc name ref.len w.svclist = some (some si) →
      si.handle = 0 ∨ si.handle = ref.handle ∨ entries w.svclist si.handle = 1)
    (h : Added alloc name ref w.svclist res writes svclist') :
    Exclusive { svclist := svclist', driver := w.driver.takeAll writes } := by
  cases h with
  | invalid _ => exact hex
  | outOfMemory _ _ _ => exact hex
  | bound si hvalid hfind =>
      have hmem := (findSvc_some hfind).1
      intro link hlink
      simp only [takeAll_append, registration_driver, List.mem_append, List.mem_singleton] at hlink
      rcases hlink with hold | rfl
      · rcases unbinding_links hold with ⟨hin, hkept⟩
        refine ⟨(hex link hin).1, fun e he hcookie => ?_⟩
        rcases mem_update_handle he with rfl | ⟨hin', _⟩
        · -- An old link to the entry bound anew: its handle is the old one, still shared.
          have hsi := (hex link hin).2 si hmem hcookie
          rcases hunshared si hfind with hzero | hsame | hone
          · exact absurd (hsi.symm.trans hzero) (hex link hin).1
          · exact hsame.symm.trans hsi
          · have hne : si.handle ≠ 0 := hsi ▸ (hex link hin).1
            have := hkept hne hsi.symm
            rw [hw.referenced _ hne, hone] at this
            exact absurd rfl this
        · exact (hex link hin).2 e hin' hcookie
      · -- The new link leads to the entry bound anew and to no other.
        refine ⟨fun hc => hvalid (Or.inl hc), fun e he hcookie => ?_⟩
        rcases mem_update_handle he with rfl | ⟨_, hne⟩
        · rfl
        · exact absurd (cookie_inj hcookie) hne
  | inserted addr si hvalid hfind hmalloc hnew =>
      rcases newSvc_some hvalid hnew with ⟨haddr, hhandle, _⟩
      -- The cookie of the new record is no other's, nor was it before.
      have hfresh : ∀ e ∈ w.svclist, e.cookie ≠ si.cookie := by
        intro e he hc
        refine alloc.fresh _ _ _ hmalloc ?_
        rw [← haddr, ← cookie_inj hc]
        exact List.mem_map_of_mem he
      intro link hlink
      simp only [registration_driver, List.mem_append, List.mem_singleton] at hlink
      rcases hlink with hold | rfl
      · refine ⟨(hex link hold).1, fun e he hcookie => ?_⟩
        rcases List.mem_cons.mp he with rfl | hin
        · -- No old link has the cookie of the new record.
          rcases List.mem_map.mp (hw.named link hold) with ⟨e', he', hc⟩
          exact absurd (hc.trans hcookie.symm) (hfresh e' he')
        · exact (hex link hold).2 e hin hcookie
      · refine ⟨fun hc => hvalid (Or.inl hc), fun e he hcookie => ?_⟩
        rcases List.mem_cons.mp he with rfl | hin
        · exact hhandle
        · exact absurd hcookie (hfresh e hin)

/-- Requests that take no shared handle's name over leave no stale link. -/
theorem step_exclusive (w : World) (i : Happening) (w' : World)
    (hinv : Linked 0 w ∧ Exclusive w) (hunshared : Unshared w i) (h : happen w i = some w') :
    Linked 0 w' ∧ Exclusive w' := by
  refine ⟨happen_linked w i w' hinv.1 h, ?_⟩
  cases i with
  | transact alloc mem txn io =>
      simp only [happen, Option.map_eq_some_iff] at h
      rcases h with ⟨res, hres, rfl⟩
      have hcases := onTransact_cases hres
      rcases res with ⟨status, reply, writes, svclist'⟩
      cases hcases with
      | unchanged => exact hinv.2
      | added msg name ref _ _ _ _ hpolicy hread hadd =>
          exact added_exclusive hinv.1 hinv.2
            (fun si hfind => hunshared msg name ref si hpolicy hread hfind) hadd
  | die handle cookies =>
      rcases die_svclist hinv.1 h with ⟨_, hcontains, hlist, _⟩
      simp only [happen, Option.ite_none_right_eq_some, Option.map_eq_some_iff, Prod.exists] at h
      rcases h with ⟨_, writes, svclist', hdeaths, rfl⟩
      intro link hlink
      -- A link that is left was there before, and is not one of the dying handle's.
      have hlink := List.mem_filter.mp (deaths_links cookies hdeaths hlink)
      rw [decide_eq_true_eq] at hlink
      have hold := hinv.2 link hlink.1
      refine ⟨hold.1, fun e he hcookie => ?_⟩
      rw [hlist] at he
      rcases List.mem_map.mp he with ⟨e', he', rfl⟩
      by_cases hc : cookies.contains e'.cookie = true
      · -- A cleared entry was linked to the dying handle and to no other.
        rw [if_pos hc] at hcookie
        have hdying := (hinv.2 _ ((hcontains _).mp hc)).2 e' he' rfl
        exact absurd ((hold.2 e' he' hcookie).symm.trans hdying) hlink.2
      · rw [if_neg hc] at hcookie ⊢
        exact hold.2 e' he' hcookie

/-- In a run whose registrations take no shared handle's name over, no death
    comes while a stale link is there. -/
theorem noStaleLink_of_unshared (events : List Happening)
    (h : Along happen Unshared World.init events) : Along happen NoStaleLink World.init events := by
  have hinv := always_of_along happen (fun w => Linked 0 w ∧ Exclusive w) Unshared step_exclusive
    World.init events ⟨linked_init, fun _ hlink => absurd hlink List.not_mem_nil⟩ h
  intro before i after t heq ht
  have hex := (hinv before (i :: after) t heq ht).2
  cases i with
  | transact alloc mem txn io => trivial
  | die handle cookies =>
      intro e he hlink
      exact Or.inl ((hex _ hlink).2 e he rfl)

/-- A registration of a one-letter name. -/
def register (letter : UInt8) (handle : UInt32) : Happening :=
  .transact blocks (registrationMemory 1 [letter, 0, 0, 0] handle)
    (registrationTxn [letter, 0, 0, 0]) zeroIo

/-- Two names of one provider, which then dies. -/
theorem deaths_unbind_iff_shared :
    ∃ w, run happen World.init [register 0x61 5, register 0x62 5, .die 5 [0x8008, 0x8108]]
        = some w ∧ w.svclist.map SvcInfo.handle = [0, 0] ∧
      (Along happen Unbinds World.init
          [register 0x61 5, register 0x62 5, .die 5 [0x8008, 0x8108]]
        ↔ Along happen NoStaleLink World.init
          [register 0x61 5, register 0x62 5, .die 5 [0x8008, 0x8108]]) := by
  have hhandles : (run happen World.init
      [register 0x61 5, register 0x62 5, .die 5 [0x8008, 0x8108]]).map
      (fun w => w.svclist.map SvcInfo.handle) = some [0, 0] := by decide +kernel
  rcases Option.map_eq_some_iff.mp hhandles with ⟨w, hrun, hhandles⟩
  exact ⟨w, hrun, hhandles, deaths_unbind_iff _ w hrun⟩

/-- The first of the two names has since been taken over by another provider.
    The death of the old one unbinds it all the same. -/
theorem takenOver_unbound :
    ∃ w w', run happen World.init [register 0x61 5, register 0x62 5, register 0x61 7] = some w ∧
      w.svclist.map SvcInfo.handle = [5, 7] ∧
      happen w (.die 5 [0x8008, 0x8108]) = some w' ∧
      w'.svclist.map SvcInfo.handle = [0, 0] ∧ ¬ Unbinds w (.die 5 [0x8008, 0x8108]) := by
  have hhandles : (run happen World.init
      [register 0x61 5, register 0x62 5, register 0x61 7]).map
      (fun w => (w.svclist.map SvcInfo.handle,
        (happen w (.die 5 [0x8008, 0x8108])).map fun w' => w'.svclist.map SvcInfo.handle))
      = some ([5, 7], some [0, 0]) := by decide +kernel
  rcases Option.map_eq_some_iff.mp hhandles with ⟨w, hrun, hhandles⟩
  rcases Prod.mk.inj hhandles with ⟨hbefore, hafter⟩
  rcases Option.map_eq_some_iff.mp hafter with ⟨w', hdie, hafter⟩
  refine ⟨w, w', hrun, hbefore, hdie, hafter, fun hunbinds => ?_⟩
  -- Only the second name was bound to the handle that died.
  have hlist := congrArg (List.map SvcInfo.handle) (hunbinds w' hdie).1
  have hunbound : (unbound 5 w.svclist).map SvcInfo.handle
      = (w.svclist.map SvcInfo.handle).map fun h => if h = 5 then 0 else h := by
    rw [unbound, List.map_map, List.map_map]
    refine List.map_congr_left fun e _ => ?_
    by_cases h : e.handle = 5
    · rw [Function.comp_apply, Function.comp_apply, if_pos h, if_pos h]
    · rw [Function.comp_apply, Function.comp_apply, if_neg h, if_neg h]
  rw [hafter, hunbound, hbefore] at hlist
  exact absurd hlist (by decide)

end ServiceManager

end ZeusOS
