import ZeusOS.InputManager.Listeners
import ZeusOS.ServiceManager.Deaths

/-!
# Death Notices for Listeners

The input manager together with the driver. Every listener's death block is
linked to its handle when it is added, and the link should be gone by the time
the block is freed.

It is gone when the link is what brought the listener down, and when the
listener held the last reference on its handle, for then the driver drops the
links of the handle. A listener that is deleted while another one has the same
handle leaves its link in place. The next death of the handle makes a callback
through memory that has been freed, and possibly given to somebody else.

`Accounts` is what holds as long as this does not happen: the references are
counted right, and the links are those of the listeners, one each. A deletion
that spares the shared handles keeps it, and so does everything else; one that
does not leaves a link to nobody, which is `links_live_iff`.

## Main definitions

* `World`, `Happening`, `happen`: The manager and the driver.
* `LinksLive`, `Wild`: What should hold, and the callback that should not be.
* `Orphans`: The deletion that leaves a link behind.
* `Accounts`: References and links are the listeners'.

## Theorems

* `execute_inputs`: The parser takes the steps of the machine.
* `accounts_release`: What a listener takes along.
* `happen_accounts`, `happen_orphans`: A step that is no such deletion, and one
  that is.
* `links_live_iff`: Both together, over whole runs.
-/

namespace ZeusOS

namespace InputManager

open Foundation.Words Foundation.Runs Binder
open ServiceManager (Allocator Driver release_strong release_links refCommandsOf
  refCommandsOf_append refCommandsOf_refEvents)
open Frameworks (inputManagerAddListener inputManagerDelListener)

/-- The command an input arrives as. -/
def Input.command : Input → Return
  | .transact _ _ _ txn _ => .transaction txn
  | .death cookie => .deadBinder cookie

/-- An input as the process meets it that was started with these services. -/
def Input.Meets (alloc : Allocator) (dup : UInt32 → Int32) (io : IoData) (this : UInt32)
    (mem : Mapping) : Input → Prop
  | .transact alloc' dup' mem' txn io' =>
    alloc' = alloc ∧ dup' = dup ∧ mem' = mem ∧ io' = io ∧ txn.target = this
  | .death _ => True

/-- What a handled transaction wrote on its own account is what the handler
    wrote. -/
theorem refCommandsOf_transactionEvents (txn : Txn) (h : Handled BnInputManager) :
    refCommandsOf (transactionEvents txn h) = h.writes := by
  have hcons : transactionEvents txn h = [.transaction txn] ++ (refEvents h.writes
      ++ (.handled txn h.status h.reply :: (binderSendReply h.reply txn.buffer h.status).map .wrote)) :=
    rfl
  rw [hcons, refCommandsOf_append, refCommandsOf_append, refCommandsOf_refEvents]
  exact List.append_nil _

/-- The parser, handed some commands for the input manager, takes the steps of
    the machine. -/
theorem execute_inputs (alloc : Allocator) (dup : UInt32 → Int32) (io : IoData) (this : UInt32)
    (hthis : this ≠ 0) (mem : Mapping) (inputs : List Input)
    (hmeets : ∀ i ∈ inputs, i.Meets alloc dup io this mem) (l : Looper BnInputManager) (s : State)
    (hs : s.manager = l.state) :
    (execute (services alloc dup io this) mem (inputs.map Input.command) l).map
        (fun r => (s.written ++ refCommandsOf r.1, r.2.state))
      = (run step s inputs).map fun s => (s.written, s.manager) := by
  induction inputs generalizing l s with
  | nil =>
      simp only [List.map_nil, execute, Option.map_some, run_nil, hs]
      congr 2
      exact List.append_nil _
  | cons i inputs ih =>
      have hrest : ∀ i ∈ inputs, i.Meets alloc dup io this mem :=
        fun i hi => hmeets i (List.mem_cons_of_mem _ hi)
      -- One command is one step; the rest is the induction hypothesis, from the state reached.
      cases i with
      | transact alloc' dup' mem' txn io' =>
          rcases hmeets _ List.mem_cons_self with ⟨rfl, rfl, rfl, rfl, htarget⟩
          have hne : txn.target ≠ 0 := fun hc => hthis (by rw [← htarget, hc])
          have hhandler : Binder.onTransact (services alloc' dup' io' this) txn
              = onTransact alloc' dup' := by
            rw [Binder.onTransact, if_pos hne]
            exact if_pos htarget
          simp only [List.map_cons, Input.command, execute, Return.action, perform, hhandler,
            run_cons, step, hs]
          change (((onTransact alloc' dup' txn (Parcel.bioInitFromTxn mem' txn) (Parcel.new io')
            l.state).map _).bind _).map _ = _
          rcases hres : onTransact alloc' dup' txn (Parcel.bioInitFromTxn mem' txn)
            (Parcel.new io') l.state with _ | res
          · rfl
          · simp only [Option.map_some, Option.bind_some, Option.map_map]
            rw [← ih hrest { l with state := res.state } _ rfl]
            congr 1
            funext r
            simp only [Function.comp_apply, refCommandsOf_append, refCommandsOf_transactionEvents,
              List.append_assoc]
      | death cookie =>
          simp only [List.map_cons, Input.command, execute, Return.action, perform, run_cons, step,
            hs]
          change (((binderDeath cookie l.state).map _).bind _).map _ = _
          rcases binderDeath cookie l.state with _ | ⟨writes, m⟩
          · rfl
          · simp only [Option.map_some, Option.bind_some, Option.map_map]
            rw [← ih hrest { l with state := m } _ rfl]
            congr 1
            funext r
            have hcons : refCommandsOf (.binderDeath cookie :: refEvents writes) = writes :=
              refCommandsOf_refEvents writes
            simp only [Function.comp_apply, refCommandsOf_append, hcons, List.append_assoc]

/-- The manager and the driver's books. -/
structure World where
  manager : BnInputManager
  driver : Driver

def World.init : World :=
  { manager := State.init.manager, driver := { strong := fun _ => 0, links := [] } }

/-- A transaction for the manager, or a death notice: a link is delivered and is
    gone. -/
inductive Happening where
  | transact (alloc : Allocator) (dup : UInt32 → Int32) (mem : Mapping) (txn : Txn) (io : IoData)
  | dead (handle cookie : UInt32)

/-- A delivered link removed. -/
def deliver (d : Driver) (link : UInt32 × UInt32) : Driver := { d with links := d.links.erase link }

def happen (w : World) : Happening → Option World
  | .transact alloc dup mem txn io =>
    (onTransact alloc dup txn (Parcel.bioInitFromTxn mem txn) (Parcel.new io) w.manager).map
      fun h => { manager := h.state, driver := w.driver.takeAll h.writes }
  | .dead handle cookie =>
    if (handle, cookie) ∈ w.driver.links then
      (binderDeath cookie w.manager).map fun (writes, manager) =>
        { manager, driver := (deliver w.driver (handle, cookie)).takeAll writes }
    else none

/-- Every link leads to a listener in the list. -/
def LinksLive (w : World) : Prop :=
  ∀ link ∈ w.driver.links, ∃ desc ∈ w.manager.mListenerDescList, desc.death = link.2

/-- The notice is delivered and its callback is made through a block that is no
    listener's any more. -/
def Wild (w : World) : Happening → Prop
  | .transact _ _ _ _ _ => False
  | .dead handle cookie =>
    (handle, cookie) ∈ w.driver.links ∧ binderDeath cookie w.manager = none

/-- A deletion hits a listener whose handle another listener has, too. -/
def Orphans (w : World) : Happening → Prop
  | .transact _ _ mem txn _ => ∃ iUid, Deleting txn (Parcel.bioInitFromTxn mem txn) iUid ∧
    ∃ desc, (w.manager.mListenerDescList.find? fun desc => desc.iUid = iUid) = some desc ∧
      1 < listeners w.manager.mListenerDescList desc.iHandle
  | .dead _ _ => False

/-- The link a listener has. -/
def ListenerDesc.link (desc : ListenerDesc) : UInt32 × UInt32 := (desc.iHandle, desc.death)

/-- The books are those of some listeners: a reference and a link for each. -/
structure Accounts (l : List ListenerDesc) (d : Driver) : Prop where
  referenced : ∀ h, d.strong h = listeners l h
  linked : d.links.Perm (l.map ListenerDesc.link)

/-- Where no listener has a handle, no link is one of its. -/
theorem link_ne {l : List ListenerDesc} {handle : UInt32} (hnone : listeners l handle = 0) :
    ∀ link ∈ l.map ListenerDesc.link, link.1 ≠ handle := by
  intro link hlink
  rcases List.mem_map.mp hlink with ⟨e, he, rfl⟩
  have := List.countP_eq_zero.mp hnone e he
  rwa [beq_iff_eq] at this

/-- A listener whose link is gone already takes its reference along, and with
    the last reference there is no link left to take. -/
theorem accounts_release {l : List ListenerDesc} {d : Driver} {desc : ListenerDesc}
    (hreferenced : ∀ h, d.strong h = listeners (desc :: l) h)
    (hlinked : d.links.Perm (l.map ListenerDesc.link)) :
    Accounts l (d.take (.release desc.iHandle)) := by
  have hcount := hreferenced desc.iHandle
  rw [listeners_cons, if_pos rfl] at hcount
  refine ⟨fun h => ?_, ?_⟩
  · rw [release_strong]
    by_cases heq : h = desc.iHandle
    · subst heq
      rw [if_pos rfl]
      omega
    · rw [if_neg heq, hreferenced, listeners_cons, if_neg (Ne.symm heq)]
      omega
  · -- The links that could be dropped are those of listeners with the handle, if there are none.
    unfold Driver.take
    simp only [Function.update_self]
    by_cases hlast : d.strong desc.iHandle - 1 = 0
    · rw [if_pos hlast]
      have hnone : listeners l desc.iHandle = 0 := by omega
      have hkeep : d.links.filter (fun link => link.1 ≠ desc.iHandle) = d.links :=
        List.filter_eq_self.mpr fun link hlink =>
          decide_eq_true (link_ne hnone link (hlinked.subset hlink))
      simp only [Driver.unlink, hkeep]
      exact hlinked
    · rw [if_neg hlast]
      exact hlinked

/-- A listener that nobody shares the handle of takes its link along as well. -/
theorem accounts_last {l : List ListenerDesc} {d : Driver} {desc : ListenerDesc}
    (hd : Accounts (desc :: l) d) (hlast : listeners l desc.iHandle = 0) :
    Accounts l (d.take (.release desc.iHandle)) := by
  -- Dropping the links of the handle first does not change what the release does.
  have hlinked : (d.unlink desc.iHandle).links.Perm (l.map ListenerDesc.link) := by
    have hfilter := hd.linked.filter fun link => decide (link.1 ≠ desc.iHandle)
    have hself : decide (desc.link.1 ≠ desc.iHandle) = false := decide_eq_false (not_not.mpr rfl)
    rw [List.map_cons, List.filter_cons, hself] at hfilter
    have hothers : (l.map ListenerDesc.link).filter (fun link => decide (link.1 ≠ desc.iHandle))
        = l.map ListenerDesc.link :=
      List.filter_eq_self.mpr fun link hlink => decide_eq_true (link_ne hlast link hlink)
    rw [← hothers]
    exact hfilter
  have hunlinked : Accounts l ((d.unlink desc.iHandle).take (.release desc.iHandle)) :=
    accounts_release hd.referenced hlinked
  have hcount := hd.referenced desc.iHandle
  rw [listeners_cons, if_pos rfl, hlast] at hcount
  refine ⟨fun h => ?_, ?_⟩
  · rw [← hunlinked.referenced h, release_strong, release_strong]
    rfl
  · have hzero : d.strong desc.iHandle - 1 = 0 := by omega
    unfold Driver.take
    simp only [Function.update_self, if_pos hzero]
    exact hlinked

/-- A new listener brings a reference and a link. -/
theorem accounts_add {l : List ListenerDesc} {d : Driver} (hd : Accounts l d) (desc : ListenerDesc) :
    Accounts (l ++ [desc]) (d.takeAll
      [.acquire desc.iHandle, .requestDeathNotification desc.iHandle desc.death]) := by
  refine ⟨fun h => ?_, ?_⟩
  · simp only [Driver.takeAll, List.foldl_cons, List.foldl_nil, Driver.take, Function.update_apply,
      listeners, List.countP_append, List.countP_singleton, beq_iff_eq]
    have := hd.referenced h
    unfold listeners at this
    by_cases heq : h = desc.iHandle
    · subst heq
      rw [if_pos rfl, if_pos rfl]
      omega
    · rw [if_neg heq, if_neg (Ne.symm heq)]
      omega
  · rw [List.map_append]
    exact hd.linked.append_right _

/-- The same listeners in another order have the same books. -/
theorem accounts_perm {l l' : List ListenerDesc} {d : Driver} (hd : Accounts l d)
    (hperm : l.Perm l') : Accounts l' d :=
  ⟨fun h => (hd.referenced h).trans (hperm.countP_eq _), hd.linked.trans (hperm.map _)⟩

theorem live_of_accounts {w : World} (h : Accounts w.manager.mListenerDescList w.driver) :
    LinksLive w := by
  intro link hlink
  rcases List.mem_map.mp (h.linked.subset hlink) with ⟨desc, hmem, rfl⟩
  exact ⟨desc, hmem, rfl⟩

/-- What holds as long as no link is orphaned. -/
def Kept (w : World) : Prop :=
  Housed w.manager ∧ Accounts w.manager.mListenerDescList w.driver

theorem adding_accounts {w : World} {alloc : Allocator} {dup : UInt32 → Int32} {txn : Txn}
    {msg : Parcel} {req : AddRequest} {addr death : UInt32} (hw : Kept w)
    (hadding : Adding alloc txn msg w.manager req addr death) :
    Kept { manager :=
             (addListener (req.desc dup addr death) (w.manager.prepare dup req addr death)).2.2
           driver := w.driver.takeAll
             (addListener (req.desc dup addr death) (w.manager.prepare dup req addr death)).2.1 } := by
  refine ⟨housed_prepare hw.1 hadding, ?_⟩
  by_cases hzero : (req.desc dup addr death).iHandle = 0
  · rw [addListener_rejected _ hzero]
    exact hw.2
  · rw [addListener_listed _ hzero]
    exact accounts_add hw.2 _

/-- A step that is no such deletion keeps the links live. -/
theorem happen_accounts (w : World) (i : Happening) (w' : World) (hw : Kept w)
    (hi : ¬ Orphans w i) (h : happen w i = some w') : Kept w' := by
  cases i with
  | transact alloc dup mem txn io =>
      simp only [happen, Option.map_eq_some_iff] at h
      rcases h with ⟨res, hres, rfl⟩
      have hcases := onTransact_cases hres
      rcases res with ⟨status, reply, writes, m'⟩
      cases hcases with
      | unchanged => exact hw
      | adding req addr death hadding => exact adding_accounts hw hadding
      | deleting iUid hdeleting =>
          rcases delListener_cases iUid w.manager with ⟨_, hdel⟩ | ⟨desc, hfind, hmem, _, hdel⟩
          · rw [hdel]
            exact hw
          · rw [hdel]
            refine ⟨housed_discard hw.1 hmem, ?_⟩
            have hperm := remove_perm hw.1 hmem
            -- Nobody else has the handle, or the deletion would have left a link behind.
            have hlast : listeners (remove desc w.manager.mListenerDescList) desc.iHandle = 0 := by
              by_contra hc
              refine hi ⟨iUid, hdeleting, desc, hfind, ?_⟩
              have hcount : listeners w.manager.mListenerDescList desc.iHandle
                  = listeners (desc :: remove desc w.manager.mListenerDescList) desc.iHandle :=
                hperm.countP_eq _
              rw [listeners_cons, if_pos rfl] at hcount
              omega
            exact accounts_last (accounts_perm hw.2 hperm) hlast
  | dead handle cookie =>
      simp only [happen, Option.ite_none_right_eq_some, Option.map_eq_some_iff, Prod.exists] at h
      rcases h with ⟨hlink, writes, m', hdeath, rfl⟩
      rcases binderDeath_cases hdeath with ⟨desc, hmem, hcookie, heq⟩
      rw [inputBinderDeath_housed hw.1 hmem, Prod.mk.injEq] at heq
      rcases heq with ⟨rfl, rfl⟩
      refine ⟨housed_discard hw.1 hmem, ?_⟩
      have hperm := remove_perm hw.1 hmem
      have haccounts := accounts_perm hw.2 hperm
      -- The link that is delivered is the link of the listener that dies.
      have hown : (handle, cookie) = desc.link := by
        rcases List.mem_map.mp (hw.2.linked.subset hlink) with ⟨e, he, heq⟩
        have hdeath : e.death = desc.death := by
          rw [hcookie]
          exact congrArg Prod.snd heq
        rw [← heq, List.inj_on_of_nodup_map (death_nodup hw.1) he hmem hdeath]
      refine accounts_release haccounts.referenced ?_
      have herase := haccounts.linked.erase desc.link
      rw [List.map_cons, List.erase_cons_head] at herase
      simp only [deliver, hown]
      exact herase

/-- Such a deletion goes through, and leaves a link to nobody. -/
theorem happen_orphans (w : World) (i : Happening) (hw : Kept w) (hi : Orphans w i) :
    ∃ w', happen w i = some w' ∧ ¬ LinksLive w' := by
  cases i with
  | dead handle cookie => exact hi.elim
  | transact alloc dup mem txn io =>
      rcases hi with ⟨iUid, hdeleting, desc, hfind, hshared⟩
      rcases onTransact_deleting alloc dup io w.manager hdeleting with ⟨res, hres, hwrites, hstate⟩
      have hmem := List.mem_of_find?_eq_some hfind
      have hdel : delListener iUid w.manager = (0, w.manager.discard desc) := by
        rw [delListener, hfind]
      rw [hdel] at hwrites hstate
      refine ⟨_, by simp only [happen, hres, Option.map_some]; rfl, fun hlive => ?_⟩
      -- The driver keeps the link, since another listener keeps the handle referenced.
      have hkept : desc.link ∈ (w.driver.takeAll res.writes).links := by
        have hlink : desc.link ∈ (w.driver.take (.release desc.iHandle)).links := by
          refine (release_links _ _ _).mpr ⟨?_, fun _ => ?_⟩
          · exact hw.2.linked.symm.subset (List.mem_map_of_mem hmem)
          · have := hw.2.referenced desc.iHandle
            omega
        rw [hwrites]
        exact hlink
      rcases hlive desc.link hkept with ⟨e, he, hdeath⟩
      simp only [hstate, BnInputManager.discard, remove, List.mem_filter, decide_eq_true_eq] at he
      -- No listener that is left has the death block of the one that was deleted.
      have hsame := List.inj_on_of_nodup_map (death_nodup hw.1) he.1 hmem hdeath
      exact he.2 (congrArg ListenerDesc.addr hsame)

theorem kept_init : Kept World.init :=
  ⟨housed_init, fun _ => rfl, List.Perm.refl _⟩

/-- No callback runs wild while the links are live. -/
theorem not_wild_of_live {w : World} (hw : LinksLive w) (i : Happening) : ¬ Wild w i := by
  cases i with
  | transact alloc dup mem txn io => exact id
  | dead handle cookie =>
      rintro ⟨hlink, hnone⟩
      have := binderDeath_isSome.mpr (hw _ hlink)
      rw [hnone] at this
      exact Bool.noConfusion this

/-- In every state a run reaches the links lead to listeners, and no callback
    is made for one that has been freed, exactly when no deletion hits a
    listener whose handle another listener has, too. -/
theorem links_live_iff (events : List Happening) :
    (Always happen LinksLive World.init events
        ∧ Along happen (fun w i => ¬ Wild w i) World.init events)
      ↔ Along happen (fun w i => ¬ Orphans w i) World.init events := by
  have hiff := always_iff_along_of happen Kept LinksLive (fun w i => ¬ Orphans w i)
    (fun _ hw => live_of_accounts hw.2) happen_accounts
    (fun w i hw hi => happen_orphans w i hw (not_not.mp hi)) World.init events kept_init
  rw [← hiff]
  constructor
  · exact fun h => h.1
  · intro hlive
    exact ⟨hlive, along_of_always (fun _ i ht => not_wild_of_live ht i) hlive⟩

/-- A request for a listener, and one to delete it. -/
def add (iUid handle : UInt32) (iFd : Int32) : Happening :=
  .transact ServiceManager.blocks (fun _ => iFd) (requestMemory (additionBytes iUid handle) [12, 36])
    (requestTxn inputManagerAddListener (additionBytes iUid handle) [12, 36]) ServiceManager.zeroIo

def delete (iUid : UInt32) : Happening :=
  .transact ServiceManager.blocks (fun _ => -1) (requestMemory (deletionBytes iUid) [])
    (requestTxn inputManagerDelListener (deletionBytes iUid) []) ServiceManager.zeroIo

/-- Two listeners of one handle, of which the first is deleted. Its link stays,
    and the next death of the handle makes a callback through its freed
    block. -/
theorem shared_dangles :
    ∃ w, run happen World.init [add 1 5 10, add 2 5 11, delete 1] = some w ∧
      w.manager.mListenerDescList.map ListenerDesc.death = [0x8300] ∧
      w.driver.links = [(5, 0x8100), (5, 0x8300)] ∧ ¬ LinksLive w ∧ Wild w (.dead 5 0x8100) := by
  have hleft : (run happen World.init [add 1 5 10, add 2 5 11, delete 1]).map
      (fun w => (w.manager.mListenerDescList.map ListenerDesc.death, w.driver.links))
      = some ([0x8300], [(5, 0x8100), (5, 0x8300)]) := by decide +kernel
  rcases Option.map_eq_some_iff.mp hleft with ⟨w, hrun, hleft⟩
  rcases Prod.mk.inj hleft with ⟨hdeaths, hlinks⟩
  have hmem : (5, 0x8100) ∈ w.driver.links := by
    rw [hlinks]
    exact List.mem_cons_self
  have hgone : ¬ ∃ desc ∈ w.manager.mListenerDescList, desc.death = 0x8100 := by
    rintro ⟨desc, hdesc, hdeath⟩
    have := List.mem_map_of_mem (f := ListenerDesc.death) hdesc
    rw [hdeaths, hdeath] at this
    exact absurd this (by decide)
  refine ⟨w, hrun, hdeaths, hlinks, fun hlive => hgone (hlive _ hmem), hmem, ?_⟩
  rw [← Option.not_isSome_iff_eq_none, binderDeath_isSome]
  exact hgone

end InputManager

end ZeusOS
