import ZeusOS.Foundation.Runs
import ZeusOS.ServiceManager.Outcomes

/-!
# Runs of the Service Manager

The service manager against arbitrary senders: any transactions, any bytes in
them, mixed with death callbacks on the entries there are. Besides the list,
the state keeps what the manager has written to the driver and the payloads of
the requests it has taken, which is what the invariants speak about.

The references come out right in every run. Three places touch them, and each
acquires as often as it adds an entry for a handle and releases as often as it
takes one away; `step_balance` is that one fact for all of them.

The records do not. A length word of `0xffffffff` passes the signed comparison
as minus one, asks for no room and copies nothing, and the terminator then
lands in the record's own length. `intact_iff` says that nothing else goes
wrong: the list is in order in every state a run reaches exactly when no such
request got through to an insertion.

## Main definitions

* `State`, `Input`, `step`: The machine.
* `Balanced`: Every reference taken is an entry's.
* `Intact`: Every record is what its request said.
* `Overlong`: The request that breaks it.

## Theorems

* `step_distinct`: Records do not overlap.
* `references_balance`: References are balanced in every run.
* `rejected_unchanged`: A request that is turned down changes nothing.
* `intact_iff`: The records are intact unless such a request got through.
-/

namespace ZeusOS

namespace ServiceManager

open Foundation.Words Foundation.Runs Binder

/-- The list, the reference commands written so far, and the transactions
    taken so far with their payloads. -/
structure State where
  svclist : List SvcInfo
  written : List RefCommand
  received : List (Txn × List UInt8)

/-- An empty list and nothing said yet. -/
def State.init : State := { svclist := [], written := [], received := [] }

/-- What comes in: a transaction, with whatever the allocators have to offer
    for it, or the death a cookie stands for. -/
inductive Input where
  | transact (alloc : Allocator) (mem : Mapping) (txn : Txn) (io : IoData)
  | death (cookie : UInt32)

/-- The payload of a transaction: `data_size` bytes from its buffer on. -/
def payloadOf (mem : Mapping) (txn : Txn) : List UInt8 :=
  (mem.bytes txn.buffer).take txn.dataSize.toNat

def step (s : State) : Input → Option State
  | .transact alloc mem txn io =>
    (onTransact alloc txn (Parcel.bioInitFromTxn mem txn) (Parcel.new io) s.svclist).map fun h =>
      { svclist := h.state
        written := s.written ++ h.writes
        received := s.received ++ [(txn, payloadOf mem txn)] }
  | .death cookie =>
    (binderDeath cookie s.svclist).map fun (writes, svclist) =>
      { s with svclist, written := s.written ++ writes }

/-- No two records are in the same place. -/
def Distinct (svclist : List SvcInfo) : Prop := (svclist.map SvcInfo.addr).Nodup

theorem distinct_update {svclist : List SvcInfo} (si : SvcInfo) (hdistinct : Distinct svclist) :
    Distinct (update svclist si) := by
  unfold Distinct
  rwa [update_addr]

/-- A new record is in front of the others and in a place of its own. -/
theorem distinct_cons {svclist : List SvcInfo} {si : SvcInfo} (hdistinct : Distinct svclist)
    (hfresh : si.addr ∉ svclist.map SvcInfo.addr) : Distinct (si :: svclist) :=
  List.nodup_cons.mpr ⟨hfresh, hdistinct⟩

theorem transacted_distinct {alloc : Allocator} {txn : Txn} {msg : Parcel}
    {svclist svclist' : List SvcInfo} {writes : List RefCommand}
    (h : Transacted alloc txn msg svclist writes svclist') (hdistinct : Distinct svclist) :
    Distinct svclist' := by
  cases h with
  | unchanged => exact hdistinct
  | added _ name ref _ _ _ _ _ _ hadd =>
      cases hadd with
      | bound si _ _ => exact distinct_update _ hdistinct
      -- The allocator has not handed this memory out before.
      | inserted addr si hvalid _ hmalloc hnew =>
          refine distinct_cons hdistinct ?_
          rw [(newSvc_some hvalid hnew).1]
          exact alloc.fresh _ _ _ hmalloc

theorem binderDeath_cases {cookie : UInt32} {svclist svclist' : List SvcInfo}
    {writes : List RefCommand} (h : binderDeath cookie svclist = some (writes, svclist')) :
    ∃ si ∈ svclist, si.cookie = cookie ∧ writes = unbinding si ∧
      svclist' = update svclist { si with handle := 0 } := by
  unfold binderDeath at h
  rw [Option.map_eq_some_iff] at h
  rcases h with ⟨si, hfind, heq⟩
  have hcookie := List.find?_some hfind
  rw [decide_eq_true_eq] at hcookie
  refine ⟨si, List.mem_of_find?_eq_some hfind, hcookie, ?_⟩
  -- A second death finds no handle, and stores the record back as it was.
  by_cases hbound : si.handle ≠ 0
  · simp only [serviceManagerBinderDeath, if_pos hbound, Prod.mk.injEq] at heq
    rw [unbinding, if_pos hbound]
    exact ⟨heq.1.symm, heq.2.symm⟩
  · simp only [serviceManagerBinderDeath, if_neg hbound, Prod.mk.injEq] at heq
    rw [unbinding, if_neg hbound]
    rw [not_not] at hbound
    refine ⟨heq.1.symm, ?_⟩
    rw [← heq.2, ← hbound]

theorem step_distinct (s : State) (i : Input) (s' : State) (hdistinct : Distinct s.svclist)
    (h : step s i = some s') : Distinct s'.svclist := by
  cases i with
  | transact alloc mem txn io =>
      simp only [step, Option.map_eq_some_iff] at h
      rcases h with ⟨res, hres, rfl⟩
      exact transacted_distinct (onTransact_cases hres) hdistinct
  | death cookie =>
      simp only [step, Option.map_eq_some_iff, Prod.exists] at h
      rcases h with ⟨writes, svclist', hdeath, rfl⟩
      -- No record moves when one is changed.
      rcases binderDeath_cases hdeath with ⟨si, _, _, _, rfl⟩
      exact distinct_update _ hdistinct

/-- The entries registered for a handle. -/
def entries (svclist : List SvcInfo) (handle : UInt32) : Nat :=
  svclist.countP fun si => si.handle == handle

/-- The references on a handle that some commands leave standing. -/
def references (written : List RefCommand) (handle : UInt32) : Int :=
  written.count (.acquire handle) - written.count (.release handle)

theorem references_append (ws ws' : List RefCommand) (h : UInt32) :
    references (ws ++ ws') h = references ws h + references ws' h := by
  unfold references
  rw [List.count_append, List.count_append]
  omega

/-- Binding an entry anew moves it from one handle's count to the other's. -/
theorem entries_update {svclist : List SvcInfo} {si : SvcInfo} (hdistinct : Distinct svclist)
    (hmem : si ∈ svclist) (handle h : UInt32) :
    entries (update svclist { si with handle }) h + (if si.handle = h then 1 else 0)
      = entries svclist h + (if handle = h then 1 else 0) := by
  have hcount := update_countP (fun e => e.handle == h) hdistinct hmem
    (show ({ si with handle } : SvcInfo).addr = si.addr from rfl)
  simp only [beq_iff_eq] at hcount
  exact hcount

/-- Every reference the manager holds is one entry's. -/
def Balanced (s : State) : Prop :=
  ∀ handle, handle ≠ 0 → references s.written handle = entries s.svclist handle

theorem references_unbinding (si : SvcInfo) (h : UInt32) (hh : h ≠ 0) :
    references (unbinding si) h = -((if si.handle = h then 1 else 0 : Nat) : Int) := by
  unfold unbinding references
  by_cases hbound : si.handle ≠ 0
  · rw [if_pos hbound]
    by_cases heq : si.handle = h
    · simp [heq]
    · simp [heq]
  · rw [if_neg hbound, if_neg fun hc => hh (by rw [← hc]; exact not_not.mp hbound)]
    rfl

theorem references_registration (handle h : UInt32) (si : SvcInfo) :
    references (registration handle si) h = ((if handle = h then 1 else 0 : Nat) : Int) := by
  unfold registration references
  by_cases heq : handle = h
  · simp [heq]
  · simp [heq]

/-- Whatever a transaction writes accounts for the entries it adds and takes
    away. -/
theorem transacted_balance {alloc : Allocator} {txn : Txn} {msg : Parcel}
    {svclist svclist' : List SvcInfo} {writes : List RefCommand}
    (h : Transacted alloc txn msg svclist writes svclist') (hdistinct : Distinct svclist)
    (handle : UInt32) (hh : handle ≠ 0) :
    (entries svclist' handle : Int) = entries svclist handle + references writes handle := by
  cases h with
  | unchanged => exact (Int.add_zero _).symm
  | added _ name ref _ _ _ _ _ _ hadd =>
      cases hadd with
      | bound si _ hfind =>
          -- One entry goes from its old handle to the new one.
          have hcount := entries_update hdistinct (findSvc_some hfind).1 ref.handle handle
          rw [references_append, references_unbinding si handle hh, references_registration]
          omega
      | inserted addr si hvalid _ _ hnew =>
          -- The new entry is bound to the handle it was registered with.
          have hhandle := (newSvc_some hvalid hnew).2.1
          rw [references_registration]
          unfold entries
          rw [List.countP_cons]
          simp only [beq_iff_eq, hhandle]
          omega

theorem step_balance (s : State) (i : Input) (s' : State)
    (hinv : Distinct s.svclist ∧ Balanced s) (h : step s i = some s') :
    Distinct s'.svclist ∧ Balanced s' := by
  refine ⟨step_distinct s i s' hinv.1 h, fun handle hh => ?_⟩
  have hbalanced := hinv.2 handle hh
  cases i with
  | transact alloc mem txn io =>
      simp only [step, Option.map_eq_some_iff] at h
      rcases h with ⟨res, hres, rfl⟩
      have := transacted_balance (onTransact_cases hres) hinv.1 handle hh
      rw [references_append, hbalanced, this]
  | death cookie =>
      simp only [step, Option.map_eq_some_iff, Prod.exists] at h
      rcases h with ⟨writes, svclist', hdeath, rfl⟩
      rcases binderDeath_cases hdeath with ⟨si, hmem, _, rfl, rfl⟩
      -- The entry goes from its handle to none; a second death changes nothing.
      have hcount := entries_update hinv.1 hmem 0 handle
      rw [if_neg (Ne.symm hh)] at hcount
      rw [references_append, references_unbinding si handle hh, hbalanced]
      simp only
      omega

/-- In every run, for every handle, the references taken and not given back are
    as many as the entries with that handle. -/
theorem references_balance (inputs : List Input) (s : State) (handle : UInt32)
    (hrun : run step State.init inputs = some s) (hh : handle ≠ 0) :
    (s.written.count (.acquire handle) : Int) - s.written.count (.release handle)
      = s.svclist.countP fun si => si.handle == handle := by
  have hinv := run_invariant step (fun s => Distinct s.svclist ∧ Balanced s) step_balance
    State.init s inputs ⟨List.nodup_nil, fun _ _ => rfl⟩ hrun
  exact hinv.2 handle hh

/-- An allocator that hands out one block after another. -/
def blocks : Allocator :=
  { malloc := fun inUse _ =>
      let addr := 0x8000 + 0x100 * UInt32.ofNat inUse.length
      if addr ∈ inUse then none else some addr
    fresh := fun inUse _ addr h => by
      by_cases hin : 0x8000 + 0x100 * UInt32.ofNat inUse.length ∈ inUse
      · rw [if_pos hin] at h
        cases h
      · rw [if_neg hin, Option.some.injEq] at h
        rwa [← h] }

def zeroIo : IoData := { addr := 0x1000, bytes := fun _ => 0, words := fun _ => 0 }

/-- The bytes of a registration with this length word and these name bytes, and
    an object for the handle behind them. -/
def registrationBytes (len : UInt32) (name : List UInt8) (handle : UInt32) : List UInt8 :=
  le32 0 ++ le32 len ++ name ++ Parcel.flatObject binderTypeHandle handle

def registrationMemory (len : UInt32) (name : List UInt8) (handle : UInt32) : Mapping :=
  { bytes := fun _ => registrationBytes len name handle
    words := fun _ => [UInt32.ofNat (8 + name.length)] }

def registrationTxn (name : List UInt8) : Txn :=
  { target := 0, cookie := 0, code := svcMgrAddService, flags := 0, senderPid := 1,
    senderEuid := 0, dataSize := UInt32.ofNat (24 + name.length), offsetsSize := 4,
    buffer := 0x4000, offsets := 0x5000 }

def registrationOf (len : UInt32) (name : List UInt8) (handle : UInt32) : Input :=
  .transact blocks (registrationMemory len name handle) (registrationTxn name) zeroIo

/-- One name registered twice for the same handle, and then its death twice. -/
theorem references_balance_sample :
    ∃ s, run step State.init [registrationOf 1 [0x61, 0, 0, 0] 5,
        registrationOf 1 [0x61, 0, 0, 0] 5, .death 0x8008, .death 0x8008] = some s ∧ s.written.length = 6 ∧
      (s.written.count (.acquire 5) : Int) - s.written.count (.release 5)
        = s.svclist.countP fun si => si.handle == 5 := by
  have hlen : (run step State.init [registrationOf 1 [0x61, 0, 0, 0] 5,
      registrationOf 1 [0x61, 0, 0, 0] 5, .death 0x8008, .death 0x8008]).map
      (fun s => s.written.length) = some 6 := by decide +kernel
  rcases Option.map_eq_some_iff.mp hlen with ⟨s, hrun, hlen⟩
  exact ⟨s, hrun, hlen, references_balance _ s 5 hrun (by decide)⟩

/-- A request that is turned down leaves the list and the driver alone, and so
    does every request that is no registration. -/
theorem rejected_unchanged (alloc : Allocator) (mem : Mapping) (txn : Txn) (io : IoData)
    (svclist : List SvcInfo) (res : Handled (List SvcInfo))
    (h : onTransact alloc txn (Parcel.bioInitFromTxn mem txn) (Parcel.new io) svclist = some res)
    (hrejected : res.status ≠ 0 ∨ txn.code = pingTransaction ∨ txn.code = svcMgrGetService ∨
      txn.code = svcMgrCheckService) :
    res.state = svclist ∧ res.writes = [] := by
  rcases onTransact_status h with ⟨hwrites, hstate⟩ | ⟨hstatus, hcode⟩
  · exact ⟨hstate, hwrites⟩
  · -- It succeeded and is a registration, so it is none of these.
    rcases hrejected with hfailed | hping | hget | hcheck
    · exact absurd hstatus hfailed
    · exact absurd (hcode.symm.trans hping) (by decide)
    · exact absurd (hcode.symm.trans hget) (by decide)
    · exact absurd (hcode.symm.trans hcheck) (by decide)

/-- A registration of the zero handle for a name that is bound. -/
theorem rejected_unchanged_zero :
    ∃ res, onTransact blocks (registrationTxn [0x61, 0, 0, 0])
        (Parcel.bioInitFromTxn (registrationMemory 1 [0x61, 0, 0, 0] 0)
          (registrationTxn [0x61, 0, 0, 0])) (Parcel.new zeroIo)
        [⟨0x8000, 5, 0, 1, [0x61, 0], 4⟩] = some res ∧ res.status = -1 ∧
      res.state = [⟨0x8000, 5, 0, 1, [0x61, 0], 4⟩] ∧ res.writes = [] := by
  have hstatus : (onTransact blocks (registrationTxn [0x61, 0, 0, 0])
      (Parcel.bioInitFromTxn (registrationMemory 1 [0x61, 0, 0, 0] 0)
        (registrationTxn [0x61, 0, 0, 0])) (Parcel.new zeroIo)
      [⟨0x8000, 5, 0, 1, [0x61, 0], 4⟩]).map Handled.status = some (-1) := by decide +kernel
  rcases Option.map_eq_some_iff.mp hstatus with ⟨res, hres, hstatus⟩
  exact ⟨res, hres, hstatus, rejected_unchanged _ _ _ _ _ res hres (Or.inl (by
    rw [hstatus]
    decide))⟩

/-- The bytes of a record's name. -/
def SvcInfo.key (si : SvcInfo) : UInt32 × List UInt8 := (si.len, si.name.take si.len.toNat)

/-- A record is in order: its length is that of a name, there is room for the
    name and its terminator, and the name is what some registration carried
    after its length word. -/
structure SvcInfo.Intact (received : List (Txn × List UInt8)) (si : SvcInfo) : Prop where
  positive : 1 ≤ si.len.toNat
  short : si.len.toNat ≤ 127
  roomy : si.len.toNat + 1 ≤ si.room
  carried : ∃ txn payload, (txn, payload) ∈ received ∧ txn.code = svcMgrAddService ∧
    8 + si.len.toNat ≤ payload.length ∧ load32 (payload.drop 4) = some si.len ∧
      si.name.take si.len.toNat = (payload.drop 8).take si.len.toNat

/-- Every record is in order, and no two have the same name. -/
structure Intact (s : State) : Prop where
  each : ∀ si ∈ s.svclist, si.Intact s.received
  unique : (s.svclist.map SvcInfo.key).Nodup

/-- A registration whose length word is minus one and that nothing else keeps
    from an insertion: its handle is not zero and there is memory. -/
def Overlong (s : State) : Input → Prop
  | .transact alloc mem txn _ =>
    txn.target = 0 ∧ txn.code = svcMgrAddService ∧
      ∃ msg name ref, (Parcel.bioInitFromTxn mem txn).getUint32 = some (0, msg) ∧
        readAddService txn msg = some (some (name, ref)) ∧ ref.len = 0xffffffff ∧
        ref.handle ≠ 0 ∧
        (alloc.malloc (s.svclist.map SvcInfo.addr) (allocSize ref.len)).isSome = true
  | .death _ => False

/-- Nothing about a record but its handle changes when it is bound. -/
theorem update_key {svclist : List SvcInfo} {si : SvcInfo} (hdistinct : Distinct svclist)
    (hmem : si ∈ svclist) (handle : UInt32) :
    (update svclist { si with handle }).map SvcInfo.key = svclist.map SvcInfo.key := by
  rw [update_handle hdistinct hmem]
  exact Foundation.Keyed.map_field SvcInfo.key _ _ fun _ _ _ => rfl

theorem update_intact {svclist : List SvcInfo} {received : List (Txn × List UInt8)}
    {si : SvcInfo} (hdistinct : Distinct svclist) (hmem : si ∈ svclist) (handle : UInt32)
    (h : ∀ e ∈ svclist, e.Intact received) :
    ∀ e ∈ update svclist { si with handle }, e.Intact received := by
  rw [update_handle hdistinct hmem]
  intro e he
  rcases List.mem_map.mp he with ⟨e', he', rfl⟩
  have hintact := h e' he'
  by_cases haddr : e'.addr = si.addr
  · rw [if_pos haddr]
    exact ⟨hintact.positive, hintact.short, hintact.roomy, hintact.carried⟩
  · rw [if_neg haddr]
    exact hintact

/-- What was received stays received. -/
theorem intact_mono {received received' : List (Txn × List UInt8)} {si : SvcInfo}
    (h : si.Intact received) (hsub : received ⊆ received') : si.Intact received' := by
  rcases h.carried with ⟨txn, payload, hmem, hrest⟩
  exact ⟨h.positive, h.short, h.roomy, txn, payload, hsub hmem, hrest⟩

/-- A record made from a request carries the name of the request. -/
theorem newSvc_intact {mem : Mapping} {txn : Txn} {msg : Parcel} {name : List UInt8}
    {ref : BinderRef} {si : SvcInfo} {received : List (Txn × List UInt8)}
    (hcode : txn.code = svcMgrAddService)
    (hpolicy : (Parcel.bioInitFromTxn mem txn).getUint32 = some (0, msg))
    (hread : readAddService txn msg = some (some (name, ref)))
    (hnew : si.len = ref.len ∧ si.room = 2 * (ref.len.toNat + 1) ∧
      ref.len.toNat + 1 ≤ name.length ∧ si.name = name.take ref.len.toNat ++ [0])
    (hpos : 1 ≤ ref.len.toNat) (hshort : ref.len.toNat ≤ 127)
    (hmem : (txn, payloadOf mem txn) ∈ received) : si.Intact received := by
  rcases readAddService_some hpolicy hread with ⟨hload, hname, height, hfits⟩
  rcases hnew with ⟨hlen, hroom, hcopied, hsi⟩
  have hsucc := succ_toNat ref.len (by omega)
  -- The room that was checked covers the length rounded up, terminator included.
  have hspec := alignNat_spec (ref.len.toNat + 1)
  rw [alignSize_toNat _ (by omega), hsucc] at hfits
  rw [hname, List.length_drop] at hcopied
  refine ⟨by rw [hlen]; exact hpos, by rw [hlen]; exact hshort, by rw [hlen, hroom]; omega, txn,
    payloadOf mem txn, hmem, hcode, ?_, ?_, ?_⟩
  -- The payload ends at the data size, behind the length word and the name.
  · rw [payloadOf, List.length_take, hlen]
    omega
  · rw [hlen, ← hload, payloadOf, List.drop_take]
    refine load32_congr _ _ ?_
    rw [List.take_take, Nat.min_eq_left (by omega)]
  · rw [hlen, hsi, hname, payloadOf, List.drop_take, List.take_take, Nat.min_eq_left (by omega),
      List.take_append_of_le_length (by rw [List.length_take, List.length_drop]; omega),
      List.take_take, Nat.min_self]

/-- A transaction that is not such a request keeps the records in order. -/
theorem transacted_intact {s : State} {alloc : Allocator} {mem : Mapping} {txn : Txn} {io : IoData}
    {svclist' : List SvcInfo} {writes : List RefCommand} {received : List (Txn × List UInt8)}
    (hdistinct : Distinct s.svclist) (hintact : Intact s)
    (hshort : ¬ Overlong s (.transact alloc mem txn io))
    (hkept : ∀ si ∈ s.svclist, si.Intact received) (hmem : (txn, payloadOf mem txn) ∈ received)
    (h : Transacted alloc txn (Parcel.bioInitFromTxn mem txn) s.svclist writes svclist') :
    (∀ si ∈ svclist', si.Intact received) ∧ (svclist'.map SvcInfo.key).Nodup := by
  cases h with
  | unchanged => exact ⟨hkept, hintact.unique⟩
  | added msg name ref _ _ htarget hcode hpolicy hread hadd =>
      cases hadd with
      -- An entry bound anew keeps its name.
      | bound si _ hfind =>
          have hin := (findSvc_some hfind).1
          refine ⟨update_intact hdistinct hin ref.handle hkept, ?_⟩
          rw [update_key hdistinct hin]
          exact hintact.unique
      | inserted addr si hvalid hfind hmalloc hnew =>
          rcases newSvc_some hvalid hnew with ⟨_, _, hminus | ⟨hpos, hle, hlen, hroom, hcopied, hsi⟩⟩
          · -- A length of minus one would have been such a request.
            refine absurd ⟨htarget, hcode, msg, name, ref, hpolicy, hread, hminus.1, ?_, ?_⟩ hshort
            · exact fun hc => hvalid (Or.inl hc)
            · rw [hmalloc]
              rfl
          · refine ⟨fun e he => ?_, ?_⟩
            · rcases List.mem_cons.mp he with rfl | hin
              · exact newSvc_intact hcode hpolicy hread ⟨hlen, hroom, hcopied, hsi⟩ hpos hle hmem
              · exact hkept e hin
            · rw [List.map_cons, List.nodup_cons]
              refine ⟨fun hc => ?_, hintact.unique⟩
              -- The search would have found an entry with the same name.
              rcases List.mem_map.mp hc with ⟨e, he, hkey⟩
              rcases Prod.mk.inj hkey with ⟨hlen', hname'⟩
              have htake : si.name.take si.len.toNat = name.take ref.len.toNat := by
                rw [hsi, hlen, List.take_append_of_le_length
                  (by rw [List.length_take]; omega), List.take_take, Nat.min_self]
              rw [htake, hlen', hlen] at hname'
              exact findSvc_none hfind e he (hlen'.trans hlen) hname'

/-- A step that is not such a request keeps the records in order. -/
theorem step_intact (s : State) (i : Input) (s' : State) (hdistinct : Distinct s.svclist)
    (hintact : Intact s) (hshort : ¬ Overlong s i) (h : step s i = some s') : Intact s' := by
  cases i with
  | death cookie =>
      simp only [step, Option.map_eq_some_iff, Prod.exists] at h
      rcases h with ⟨writes, svclist', hdeath, rfl⟩
      rcases binderDeath_cases hdeath with ⟨si, hmem, _, _, rfl⟩
      refine ⟨update_intact hdistinct hmem 0 hintact.each, ?_⟩
      simp only
      rw [update_key hdistinct hmem]
      exact hintact.unique
  | transact alloc mem txn io =>
      simp only [step, Option.map_eq_some_iff] at h
      rcases h with ⟨res, hres, rfl⟩
      have hkept : ∀ si ∈ s.svclist, si.Intact (s.received ++ [(txn, payloadOf mem txn)]) :=
        fun si hsi => intact_mono (hintact.each si hsi) (List.subset_append_left _ _)
      rcases transacted_intact hdistinct hintact hshort hkept
        (List.mem_append_right _ List.mem_cons_self) (onTransact_cases hres) with ⟨heach, hunique⟩
      exact ⟨heach, hunique⟩

/-- For such a request no room is asked for, nothing is copied, and the length
    is cut down. -/
theorem newSvc_overlong (addr : UInt32) (name : List UInt8) {ref : BinderRef}
    (hlen : ref.len = 0xffffffff) :
    newSvc addr name ref = some ⟨addr, ref.handle, ref.allowIsolated, 0x00ffffff, [], 0⟩ := by
  have hsize : ((0xffffffff : UInt32) + 1).toNat = 0 := by decide
  have hroom : (allocSize 0xffffffff).toNat - svcInfoSize.toNat = 0 := by decide
  have hminus : toInt 0xffffffff = -1 := by decide
  simp only [newSvc, copyName, hlen, hsize, hroom, Nat.le_refl, Nat.zero_le, and_self, if_true,
    List.take_zero, Option.bind_some, terminate, hminus]
  rw [if_neg (by decide)]
  rfl

/-- Such a request gets through, and leaves a record that is not in order. -/
theorem step_overlong (s : State) (i : Input) (hintact : Intact s) (hlong : Overlong s i) :
    ∃ s', step s i = some s' ∧ ¬ Intact s' := by
  cases i with
  | death cookie => exact hlong.elim
  | transact alloc mem txn io =>
      rcases hlong with ⟨htarget, hcode, msg, name, ref, hpolicy, hread, hlen, hhandle, hmalloc⟩
      rcases Option.isSome_iff_exists.mp hmalloc with ⟨addr, hmalloc⟩
      -- Taken as signed, the length is neither zero nor too long.
      have hvalid : ¬ Invalid ref := by
        unfold Invalid
        rw [hlen]
        rintro (hc | hc | hc)
        · exact hhandle hc
        · exact absurd hc (by decide)
        · exact absurd hc (by decide)
      -- No record in order has that length, so the name is not found.
      have hfind : findSvc name ref.len s.svclist = some none := by
        refine findSvc_of_ne fun si hsi hc => ?_
        have := (hintact.each si hsi).short
        rw [hc, hlen] at this
        exact absurd this (by decide)
      have hadd := addService_new hvalid hfind hmalloc (newSvc_overlong addr name hlen)
      rcases apply_spec (.uint32 0) _ (writer_new io) with ⟨reply, hreply, _⟩
      have htransact := onTransact_add htarget hcode hpolicy hread hadd hreply
      refine ⟨_, by rw [step, htransact]; rfl, fun hc => ?_⟩
      exact absurd (hc.each _ List.mem_cons_self).short
        (show ¬ (0x00ffffff : UInt32).toNat ≤ 127 by decide)

/-- The records are in order in every state a run reaches exactly when no
    registration with a length word of minus one got through to an
    insertion. -/
theorem intact_iff (inputs : List Input) :
    Always step Intact State.init inputs
      ↔ Along step (fun s i => ¬ Overlong s i) State.init inputs := by
  -- That records are apart is carried along, since the steps need it.
  refine always_iff_along_of step (fun s => Distinct s.svclist ∧ Intact s) Intact
    (fun s i => ¬ Overlong s i) (fun _ hs => hs.2) ?_ ?_ State.init inputs
    ⟨List.nodup_nil, ⟨fun _ hsi => absurd hsi List.not_mem_nil, List.nodup_nil⟩⟩
  · intro s i s' hs hi h
    exact ⟨step_distinct s i s' hs.1 h, step_intact s i s' hs.1 hs.2 hi h⟩
  · intro s i hs hi
    exact step_overlong s i hs.2 (not_not.mp hi)

/-- A length word of minus one, with no name at all, leaves a record of
    sixteen million bytes in a block that has room for none. -/
theorem overlong_registered :
    ∃ s, run step State.init [registrationOf 0xffffffff [] 5] = some s ∧
      (s.svclist.map fun si => (si.len, si.room)) = [(0x00ffffff, 0)] ∧ ¬ Intact s := by
  have hlist : (run step State.init [registrationOf 0xffffffff [] 5]).map
      (fun s => s.svclist.map fun si => (si.len, si.room)) = some [(0x00ffffff, 0)] := by
    decide +kernel
  rcases Option.map_eq_some_iff.mp hlist with ⟨s, hrun, hlist⟩
  refine ⟨s, hrun, hlist, fun hc => ?_⟩
  rcases List.map_eq_singleton_iff.mp hlist with ⟨si, hsi, hlen⟩
  have := (hc.each si (by rw [hsi]; exact List.mem_cons_self)).short
  rw [(Prod.mk.inj hlen).1] at this
  exact absurd this (by decide)

end ServiceManager

end ZeusOS
