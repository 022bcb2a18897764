import Mathlib.Data.List.Nodup
import ZeusOS.Binder.Inspect
import ZeusOS.Binder.Writing
import ZeusOS.Foundation.Keyed
import ZeusOS.ServiceManager.Manager

/-!
# What a Request Can Do

The ways a transaction can end, stated once so that no later proof looks into
the handler. There are only two: either the list and the driver are left
alone, or a name was registered and the call succeeded. A registration in turn
either binds an entry that is there or puts a new one in front.

## Main definitions

* `Added`: What `addService` can have done.
* `Transacted`: What `onTransact` can have done.

## Theorems

* `findSvc_some`, `findSvc_none`: What a search says about the list.
* `addService_found`, `addService_new`: A name that is there already, or not.
* `addService_cases`, `onTransact_cases`: The outcomes.
* `onTransact_status`: Only a registration that succeeds changes anything.
* `onTransact_add`, `onTransact_get`: A request that can be read.
* `string_behind_policy`, `readAddService_some`: Where the name of a request lies.
* `allocSize_room`, `newSvc_some`: The record made for a name.
* `update_countP`: Counting entries across an update.
-/

namespace ZeusOS

namespace ServiceManager

open Foundation.Words Binder

theorem memEq_eq_some {n : Nat} {s1 s2 : List UInt8} {eq : Bool} (h : memEq n s1 s2 = some eq) :
    n ≤ s1.length ∧ n ≤ s2.length ∧ (eq = true ↔ s1.take n = s2.take n) := by
  unfold memEq at h
  -- Bytes that are not there cannot be compared.
  by_cases hlen : n ≤ s1.length ∧ n ≤ s2.length
  · rw [if_pos hlen, Option.some.injEq] at h
    rw [← h, beq_iff_eq]
    exact ⟨hlen.1, hlen.2, Iff.rfl⟩
  · rw [if_neg hlen] at h
    cases h

/-- A search that ends on an entry ends on one with this length and these
    bytes. -/
theorem findSvc_some {name : List UInt8} {len : UInt32} {svclist : List SvcInfo} {si : SvcInfo}
    (h : findSvc name len svclist = some (some si)) :
    si ∈ svclist ∧ si.len = len ∧ si.name.take len.toNat = name.take len.toNat := by
  induction svclist with
  | nil => cases h
  | cons e rest ih =>
      unfold findSvc at h
      -- The bytes are compared only where the lengths agree.
      by_cases hlen : len = e.len
      · rw [if_pos hlen, Option.bind_eq_some_iff] at h
        rcases h with ⟨eq, hmem, h⟩
        have hspec := memEq_eq_some hmem
        by_cases heq : eq = true
        · rw [if_pos heq, Option.some.injEq, Option.some.injEq] at h
          rw [← h]
          exact ⟨List.mem_cons_self, hlen.symm, (hspec.2.2.mp heq).symm⟩
        · rw [if_neg heq] at h
          exact ⟨List.mem_cons_of_mem _ (ih h).1, (ih h).2⟩
      · rw [if_neg hlen] at h
        exact ⟨List.mem_cons_of_mem _ (ih h).1, (ih h).2⟩

/-- A search that ends without one has seen none. -/
theorem findSvc_none {name : List UInt8} {len : UInt32} {svclist : List SvcInfo}
    (h : findSvc name len svclist = some none) :
    ∀ si ∈ svclist, si.len = len → si.name.take len.toNat ≠ name.take len.toNat := by
  induction svclist with
  | nil => exact fun _ hsi => absurd hsi List.not_mem_nil
  | cons e rest ih =>
      unfold findSvc at h
      intro si hsi hsilen
      by_cases hlen : len = e.len
      · rw [if_pos hlen, Option.bind_eq_some_iff] at h
        rcases h with ⟨eq, hmem, h⟩
        have hspec := memEq_eq_some hmem
        -- The entry was compared and differed, or the search would have ended on it.
        by_cases heq : eq = true
        · rw [if_pos heq] at h
          cases h
        · rw [if_neg heq] at h
          rcases List.mem_cons.mp hsi with rfl | hrest
          · exact fun hc => heq (hspec.2.2.mpr hc.symm)
          · exact ih h si hrest hsilen
      · rw [if_neg hlen] at h
        rcases List.mem_cons.mp hsi with rfl | hrest
        · exact absurd hsilen.symm hlen
        · exact ih h si hrest hsilen

/-- A length no entry has is not found, whatever the bytes. -/
theorem findSvc_of_ne {name : List UInt8} {len : UInt32} {svclist : List SvcInfo}
    (h : ∀ si ∈ svclist, si.len ≠ len) : findSvc name len svclist = some none := by
  induction svclist with
  | nil => rfl
  | cons e rest ih =>
      unfold findSvc
      rw [if_neg fun hc => h e List.mem_cons_self hc.symm]
      exact ih fun si hsi => h si (List.mem_cons_of_mem _ hsi)

/-- The request is turned down before the list is looked at. -/
def Invalid (ref : BinderRef) : Prop :=
  ref.handle = 0 ∨ toInt ref.len = 0 ∨ toInt ref.len > 127

/-- The release that comes before an entry is bound again. -/
def unbinding (si : SvcInfo) : List RefCommand :=
  if si.handle ≠ 0 then [.release si.handle] else []

/-- What `addService` can have done. -/
inductive Added (alloc : Allocator) (name : List UInt8) (ref : BinderRef)
    (svclist : List SvcInfo) : Int32 → List RefCommand → List SvcInfo → Prop
  | invalid (hinvalid : Invalid ref) : Added alloc name ref svclist (-1) [] svclist
  | outOfMemory (hvalid : ¬ Invalid ref) (hfind : findSvc name ref.len svclist = some none)
      (hmalloc : alloc.malloc (svclist.map SvcInfo.addr) (allocSize ref.len) = none) :
      Added alloc name ref svclist (-1) [] svclist
  | bound (si : SvcInfo) (hvalid : ¬ Invalid ref)
      (hfind : findSvc name ref.len svclist = some (some si)) :
      Added alloc name ref svclist 0 (unbinding si ++ registration ref.handle si)
        (update svclist { si with handle := ref.handle })
  | inserted (addr : UInt32) (si : SvcInfo) (hvalid : ¬ Invalid ref)
      (hfind : findSvc name ref.len svclist = some none)
      (hmalloc : alloc.malloc (svclist.map SvcInfo.addr) (allocSize ref.len) = some addr)
      (hnew : newSvc addr name ref = some si) :
      Added alloc name ref svclist 0 (registration ref.handle si) (si :: svclist)

/-- A name that is there is bound anew, after what it was bound to before has
    been given back. -/
theorem addService_found (alloc : Allocator) {name : List UInt8} {ref : BinderRef}
    {svclist : List SvcInfo} {si : SvcInfo} (hvalid : ¬ Invalid ref)
    (hfind : findSvc name ref.len svclist = some (some si)) :
    addService alloc name ref svclist = some (0, unbinding si ++ registration ref.handle si,
      update svclist { si with handle := ref.handle }) := by
  unfold Invalid at hvalid
  rw [addService, if_neg hvalid, hfind, Option.bind_some, unbinding]
  -- The callback is run by hand first, if the entry is bound.
  by_cases hbound : si.handle ≠ 0
  · simp only [if_pos hbound, serviceManagerBinderDeath]
    rfl
  · simp only [if_neg hbound]
    rfl

/-- A name that is not there gets a record, if there is memory for one. -/
theorem addService_new {alloc : Allocator} {name : List UInt8} {ref : BinderRef}
    {svclist : List SvcInfo} {addr : UInt32} {si : SvcInfo} (hvalid : ¬ Invalid ref)
    (hfind : findSvc name ref.len svclist = some none)
    (hmalloc : alloc.malloc (svclist.map SvcInfo.addr) (allocSize ref.len) = some addr)
    (hnew : newSvc addr name ref = some si) :
    addService alloc name ref svclist = some (0, registration ref.handle si, si :: svclist) := by
  unfold Invalid at hvalid
  rw [addService, if_neg hvalid, hfind]
  simp only [Option.bind_some, hmalloc, hnew, Option.map_some]

theorem addService_cases {alloc : Allocator} {name : List UInt8} {ref : BinderRef}
    {svclist svclist' : List SvcInfo} {res : Int32} {writes : List RefCommand}
    (h : addService alloc name ref svclist = some (res, writes, svclist')) :
    Added alloc name ref svclist res writes svclist' := by
  have hfound := h
  unfold addService at h
  by_cases hinvalid : ref.handle = 0 ∨ toInt ref.len = 0 ∨ toInt ref.len > 127
  · rw [if_pos hinvalid] at h
    simp only [Option.some.injEq, Prod.mk.injEq] at h
    rcases h with ⟨rfl, rfl, rfl⟩
    exact .invalid hinvalid
  · rw [if_neg hinvalid, Option.bind_eq_some_iff] at h
    rcases h with ⟨found, hfind, h⟩
    -- The test is passed: either the name is there or a record is made.
    cases found with
    | some si =>
        rw [addService_found alloc hinvalid hfind] at hfound
        simp only [Option.some.injEq, Prod.mk.injEq] at hfound
        rcases hfound with ⟨rfl, rfl, rfl⟩
        exact .bound si hinvalid hfind
    | none =>
        -- Only a name that is not there needs memory.
        cases hmalloc : alloc.malloc (svclist.map SvcInfo.addr) (allocSize ref.len) with
        | none =>
            simp only [hmalloc, Option.some.injEq, Prod.mk.injEq] at h
            rcases h with ⟨rfl, rfl, rfl⟩
            exact .outOfMemory hinvalid hfind hmalloc
        | some addr =>
            simp only [hmalloc, Option.map_eq_some_iff, Prod.mk.injEq] at h
            rcases h with ⟨si, hnew, rfl, rfl, rfl⟩
            exact .inserted addr si hinvalid hfind hmalloc hnew

/-- What `onTransact` can have done to the list and the driver. -/
inductive Transacted (alloc : Allocator) (txn : Txn) (msg : Parcel) (svclist : List SvcInfo) :
    List RefCommand → List SvcInfo → Prop
  | unchanged : Transacted alloc txn msg svclist [] svclist
  | added (msg' : Parcel) (name : List UInt8) (ref : BinderRef) (writes : List RefCommand)
      (svclist' : List SvcInfo) (htarget : txn.target = 0) (hcode : txn.code = svcMgrAddService)
      (hpolicy : msg.getUint32 = some (0, msg'))
      (hread : readAddService txn msg' = some (some (name, ref)))
      (hadd : Added alloc name ref svclist 0 writes svclist') :
      Transacted alloc txn msg svclist writes svclist'

theorem onTransact_cases {alloc : Allocator} {txn : Txn} {msg reply : Parcel}
    {svclist : List SvcInfo} {res : Handled (List SvcInfo)}
    (h : onTransact alloc txn msg reply svclist = some res) :
    Transacted alloc txn msg svclist res.writes res.state := by
  -- The tests of the source, in its order, until the request is a registration.
  unfold onTransact at h
  by_cases htarget : txn.target ≠ 0
  · rw [if_pos htarget, Option.some.injEq] at h
    rw [← h]
    exact .unchanged
  rw [if_neg htarget] at h
  by_cases hping : txn.code = pingTransaction
  · rw [if_pos hping, Option.some.injEq] at h
    rw [← h]
    exact .unchanged
  rw [if_neg hping, Option.bind_eq_some_iff] at h
  rcases h with ⟨⟨policy, msg'⟩, hpolicy, h⟩
  by_cases hstrict : policy ≠ 0
  · simp only [if_pos hstrict, Option.map_eq_some_iff] at h
    rcases h with ⟨_, _, rfl⟩
    exact .unchanged
  simp only [if_neg hstrict] at h
  rw [not_not] at hstrict htarget
  subst hstrict
  by_cases hget : txn.code = svcMgrGetService ∨ txn.code = svcMgrCheckService
  · -- A lookup leaves everything alone, found or not.
    rw [if_pos hget, Option.bind_eq_some_iff] at h
    rcases h with ⟨⟨⟨ptr, len⟩, msg''⟩, _, h⟩
    cases ptr with
    | none =>
        simp only [Option.some.injEq] at h
        rw [← h]
        exact .unchanged
    | some ptr =>
        simp only [Option.bind_eq_some_iff, Option.map_eq_some_iff] at h
        rcases h with ⟨_, _, _, _, rfl⟩
        exact .unchanged
  rw [if_neg hget] at h
  by_cases hadd : txn.code = svcMgrAddService
  · rw [if_pos hadd, Option.bind_eq_some_iff] at h
    rcases h with ⟨request, hread, h⟩
    cases request with
    | none =>
        simp only [Option.some.injEq] at h
        rw [← h]
        exact .unchanged
    | some request =>
        simp only [Option.bind_eq_some_iff] at h
        rcases h with ⟨⟨status, writes, svclist'⟩, hservice, h⟩
        have hcases := addService_cases hservice
        by_cases hstatus : status ≠ 0
        · -- A refused registration has touched nothing.
          simp only [if_pos hstatus, Option.some.injEq] at h
          rw [← h]
          cases hcases with
          | invalid _ => exact .unchanged
          | outOfMemory _ _ _ => exact .unchanged
          | bound _ _ _ => exact absurd rfl hstatus
          | inserted _ _ _ _ _ _ => exact absurd rfl hstatus
        · rw [not_not] at hstatus
          subst hstatus
          simp only [ne_eq, not_true, if_false, Option.map_eq_some_iff] at h
          rcases h with ⟨_, _, rfl⟩
          exact .added msg' request.1 request.2 writes svclist' htarget hadd hpolicy hread hcases
  · -- No other code is known.
    rw [if_neg hadd, Option.some.injEq] at h
    rw [← h]
    exact .unchanged

/-- Only a registration that succeeds changes anything. -/
theorem onTransact_status {alloc : Allocator} {txn : Txn} {msg reply : Parcel}
    {svclist : List SvcInfo} {res : Handled (List SvcInfo)}
    (h : onTransact alloc txn msg reply svclist = some res) :
    res.writes = [] ∧ res.state = svclist ∨ res.status = 0 ∧ txn.code = svcMgrAddService := by
  have hcases := onTransact_cases h
  rcases res with ⟨status, reply', writes, svclist'⟩
  cases hcases with
  | unchanged => exact Or.inl ⟨rfl, rfl⟩
  | added msg' name ref _ _ htarget hcode hpolicy hread _ =>
      have hping : svcMgrAddService ≠ pingTransaction := by decide
      have hget : ¬ (svcMgrAddService = svcMgrGetService ∨ svcMgrAddService = svcMgrCheckService) := by
        decide
      simp only [onTransact, htarget, hcode, hpolicy, hread, ne_eq, not_true, if_false, if_neg hping,
        Option.bind_some, if_neg hget, if_true, Option.bind_eq_some_iff] at h
      rcases h with ⟨⟨res, writes', svclist''⟩, hadd, h⟩
      have hadded := addService_cases hadd
      by_cases hres : res = 0
      · simp only [hres, not_true, if_false, Option.map_eq_some_iff, Handled.mk.injEq] at h
        rcases h with ⟨_, _, hstatus, _⟩
        exact Or.inr ⟨hstatus.symm, hcode⟩
      · -- The two ways to turn a registration down come before anything is touched.
        simp only [hres, not_false_eq_true, if_true, Option.some.injEq, Handled.mk.injEq] at h
        rcases h with ⟨_, _, rfl, rfl⟩
        cases hadded with
        | invalid _ => exact Or.inl ⟨rfl, rfl⟩
        | outOfMemory _ _ _ => exact Or.inl ⟨rfl, rfl⟩
        | bound _ _ _ => exact absurd rfl hres
        | inserted _ _ _ _ _ _ => exact absurd rfl hres

/-- A registration that can be read goes to `addService`. -/
theorem onTransact_adding {alloc : Allocator} {txn : Txn} {msg msg' reply : Parcel}
    {name : List UInt8} {ref : BinderRef} {svclist : List SvcInfo} (htarget : txn.target = 0)
    (hcode : txn.code = svcMgrAddService) (hpolicy : msg.getUint32 = some (0, msg'))
    (hread : readAddService txn msg' = some (some (name, ref))) :
    onTransact alloc txn msg reply svclist
      = (addService alloc name ref svclist).bind fun (res, writes, svclist) =>
          if res ≠ 0 then some { status := -1, reply, writes, state := svclist }
          else (reply.putUint32 0).map fun reply => { status := 0, reply, writes, state := svclist } := by
  rw [onTransact, if_neg (not_not.mpr htarget), if_neg (by rw [hcode]; decide), hpolicy]
  simp only [Option.bind_some, ne_eq, not_true, if_false, hcode]
  rw [if_neg (by decide), if_pos trivial, hread]
  rfl

/-- The outcome of a registration is the answer. -/
theorem onTransact_add {alloc : Allocator} {txn : Txn} {msg msg' reply reply' : Parcel}
    {name : List UInt8} {ref : BinderRef} {svclist svclist' : List SvcInfo} {res : Int32}
    {writes : List RefCommand} (htarget : txn.target = 0) (hcode : txn.code = svcMgrAddService)
    (hpolicy : msg.getUint32 = some (0, msg'))
    (hread : readAddService txn msg' = some (some (name, ref)))
    (hadd : addService alloc name ref svclist = some (res, writes, svclist'))
    (hreply : reply.putUint32 0 = some reply') :
    onTransact alloc txn msg reply svclist = some
      (if res ≠ 0 then { status := -1, reply, writes, state := svclist' }
        else { status := 0, reply := reply', writes, state := svclist' }) := by
  rw [onTransact_adding htarget hcode hpolicy hread, hadd, Option.bind_some]
  -- A refused registration goes back as the status, without the reply.
  by_cases hres : res = 0
  · simp only [if_neg (not_not.mpr hres), hreply, Option.map_some]
  · simp only [if_pos hres]

/-- A lookup that can be read is answered with the handle that was found. -/
theorem onTransact_get {alloc : Allocator} {txn : Txn} {msg msg₁ msg₂ reply : Parcel} {ptr : Nat}
    {len : UInt32} {svclist : List SvcInfo} (htarget : txn.target = 0)
    (hcode : txn.code = svcMgrGetService ∨ txn.code = svcMgrCheckService)
    (hpolicy : msg.getUint32 = some (0, msg₁))
    (hstring : msg₁.getString8 = some ((some ptr, len), msg₂)) :
    onTransact alloc txn msg reply svclist
      = (getService (msg₂.buf.drop ptr) svclist).bind fun handle =>
          (if handle ≠ 0 then reply.putRef handle else reply.putUint32 0).map fun reply =>
            { status := 0, reply, writes := [], state := svclist } := by
  have hping : txn.code ≠ pingTransaction := by
    rcases hcode with hcode | hcode
    · rw [hcode]
      decide
    · rw [hcode]
      decide
  rw [onTransact, if_neg (not_not.mpr htarget), if_neg hping, hpolicy]
  simp only [Option.bind_some, ne_eq, not_true, if_false]
  rw [if_pos hcode, hstring]
  rfl

/-- A string behind the policy word follows its length word, and all of it lies
    in the payload. -/
theorem string_behind_policy {mem : Mapping} {txn : Txn} {msg msg' : Parcel} {ptr : Nat}
    {len : UInt32} (hpolicy : (Parcel.bioInitFromTxn mem txn).getUint32 = some (0, msg))
    (hstring : msg.getString8 = some ((some ptr, len), msg')) :
    load32 ((mem.bytes txn.buffer).drop 4) = some len ∧ ptr = 8 ∧
      msg'.buf = mem.bytes txn.buffer ∧ 8 ≤ txn.dataSize.toNat ∧
      (Parcel.alignSize (len + 1)).toNat ≤ txn.dataSize.toNat - 8 := by
  rcases getString8_some hstring with ⟨hload, hptr, hbuf, hroom, hfits⟩
  -- The policy word was read, or there would have been no room for a name.
  rcases getUint32_cases hpolicy with ⟨_, _, rfl⟩ | ⟨hfour, _, rfl⟩
  · exact absurd hroom (by rw [exhausted_room]; decide)
  · rw [advance_room, init_room] at hroom hfits
    rw [init_room] at hfour
    -- Two words have been taken from the room, and neither subtraction wraps.
    have h4 : (txn.dataSize - 4).toNat = txn.dataSize.toNat - 4 :=
      UInt32.toNat_sub_of_le _ _ hfour
    have h8 : (txn.dataSize - 4 - 4).toNat = txn.dataSize.toNat - 4 - 4 := by
      rw [UInt32.toNat_sub_of_le _ _ hroom, h4]
      rfl
    rw [UInt32.le_iff_toNat_le] at hroom hfits hfour
    change 4 ≤ _ at hroom hfour
    exact ⟨hload, hptr, hbuf, by omega, by omega⟩

/-- The name of a request that was read follows its length word, the third
    field of the message follows its second, and all of it lies in the
    payload. -/
theorem readAddService_some {mem : Mapping} {txn : Txn} {msg : Parcel} {name : List UInt8}
    {ref : BinderRef} (hpolicy : (Parcel.bioInitFromTxn mem txn).getUint32 = some (0, msg))
    (hread : readAddService txn msg = some (some (name, ref))) :
    load32 ((mem.bytes txn.buffer).drop 4) = some ref.len ∧
      name = (mem.bytes txn.buffer).drop 8 ∧ 8 ≤ txn.dataSize.toNat ∧
      (Parcel.alignSize (ref.len + 1)).toNat ≤ txn.dataSize.toNat - 8 := by
  rw [readAddService, Option.bind_eq_some_iff] at hread
  rcases hread with ⟨⟨⟨ptr, len⟩, q⟩, hstring, hread⟩
  cases ptr with
  | none =>
      simp only [Option.some.injEq, reduceCtorEq] at hread
  | some ptr =>
      simp only [Option.bind_eq_some_iff, Option.map_eq_some_iff, Option.some.injEq,
        Prod.mk.injEq] at hread
      rcases hread with ⟨_, _, _, _, hname, rfl⟩
      rcases string_behind_policy hpolicy hstring with ⟨hload, rfl, hbuf, height, hfits⟩
      rw [hbuf] at hname
      exact ⟨hload, hname.symm, height, hfits⟩

theorem succ_toNat (len : UInt32) (hlen : len.toNat < 2 ^ 30) :
    (len + 1).toNat = len.toNat + 1 := by
  rw [UInt32.toNat_add]
  change (len.toNat + 1) % 2 ^ 32 = _
  omega

/-- A record has room for its name and its terminator, twice over. -/
theorem allocSize_room (len : UInt32) (hlen : len.toNat < 2 ^ 30) :
    (allocSize len).toNat - svcInfoSize.toNat = 2 * (len.toNat + 1) := by
  rw [allocSize, UInt32.toNat_add, UInt32.toNat_mul, succ_toNat len hlen]
  change (24 + (len.toNat + 1) * 2 % 2 ^ 32) % 2 ^ 32 - 24 = _
  omega

/-- The record made for a name of a positive length holds the name and its
    terminator. The one other length that is survived is minus one, which
    copies nothing and then cuts down the stored length itself. -/
theorem newSvc_some {addr : UInt32} {name : List UInt8} {ref : BinderRef} {si : SvcInfo}
    (hvalid : ¬ Invalid ref) (h : newSvc addr name ref = some si) :
    si.addr = addr ∧ si.handle = ref.handle ∧
      (ref.len = 0xffffffff ∧ si.len = 0x00ffffff ∧ si.room = 0 ∨
        1 ≤ ref.len.toNat ∧ ref.len.toNat ≤ 127 ∧ si.len = ref.len ∧
          si.room = 2 * (ref.len.toNat + 1) ∧ ref.len.toNat + 1 ≤ name.length ∧
          si.name = name.take ref.len.toNat ++ [0]) := by
  rw [newSvc, Option.bind_eq_some_iff] at h
  rcases h with ⟨si₁, hcopy, hterm⟩
  unfold copyName at hcopy
  simp only [Option.ite_none_right_eq_some, Option.some.injEq] at hcopy
  rcases hcopy with ⟨⟨hroom, hname⟩, rfl⟩
  have hlt := ref.len.toNat_lt
  have hbound : toInt ref.len ≠ 0 ∧ toInt ref.len ≤ 127 := by
    unfold Invalid at hvalid
    omega
  unfold terminate at hterm
  by_cases hpos : 0 ≤ toInt ref.len
  · -- The length is what it says, and nothing wraps.
    have hsmall : ref.len.toNat < 2 ^ 31 := by
      unfold toInt at hpos
      by_contra hge
      rw [if_neg hge] at hpos
      omega
    rw [toInt_of_lt _ hsmall] at hbound hterm
    have hsucc := succ_toNat ref.len (by omega)
    have hsize := allocSize_room ref.len (by omega)
    rw [if_pos (Int.natCast_nonneg _), Int.toNat_natCast] at hterm
    simp only [Option.ite_none_right_eq_some, Option.some.injEq] at hterm
    rcases hterm with ⟨_, rfl⟩
    rw [hsucc] at hname
    refine ⟨rfl, rfl, Or.inr ⟨by omega, by omega, rfl, hsize, hname, ?_⟩⟩
    simp only [hsucc]
    -- The copy takes the terminator along or whatever stands there, and a zero is put over it.
    have htake : (name.take (ref.len.toNat + 1)).length = ref.len.toNat + 1 := by
      rw [List.length_take]
      omega
    rw [List.set_eq_take_append_cons_drop, if_pos (by omega), List.take_take,
      Nat.min_eq_left (by omega), List.drop_eq_nil_of_le (by omega)]
  · rw [if_neg hpos] at hterm
    by_cases hminus : toInt ref.len = -1
    · -- The terminator goes into the top byte of the record's own length.
      have hlen : ref.len = 0xffffffff := by
        rw [← toUnsigned_toInt ref.len, hminus]
        decide
      rw [if_pos hminus, Option.some.injEq] at hterm
      rw [← hterm]
      simp only [hlen]
      exact ⟨trivial, trivial, Or.inl ⟨trivial, by decide, by decide⟩⟩
    · rw [if_neg hminus] at hterm
      cases hterm

/-- Updating a record where it is exchanges one entry for another. -/
theorem update_countP {svclist : List SvcInfo} {si si' : SvcInfo} (p : SvcInfo → Bool)
    (hdistinct : (svclist.map SvcInfo.addr).Nodup) (hmem : si ∈ svclist)
    (haddr : si'.addr = si.addr) :
    (update svclist si').countP p + (if p si then 1 else 0)
      = svclist.countP p + (if p si' then 1 else 0) := by
  induction svclist with
  | nil => exact absurd hmem List.not_mem_nil
  | cons e rest ih =>
      rw [List.map_cons, List.nodup_cons] at hdistinct
      have hrest : ∀ e' ∈ rest, e'.addr ≠ e.addr := by
        intro e' he' hc
        exact hdistinct.1 (hc ▸ List.mem_map_of_mem he')
      unfold update
      rw [List.map_cons, List.countP_cons, List.countP_cons]
      -- The induction goes down to the place of the entry.
      rcases List.mem_cons.mp hmem with rfl | hin
      · -- The entry is in front, and no other has its address.
        have hsame : rest.map (fun e => if e.addr = si'.addr then si' else e) = rest := by
          rw [List.map_congr_left, List.map_id']
          intro e' he'
          rw [haddr, if_neg (hrest e' he')]
        rw [hsame, if_pos haddr.symm]
        omega
      · have hne : e.addr ≠ si'.addr := by
          rw [haddr]
          exact (hrest si hin).symm
        have := ih hdistinct.2 hin
        unfold update at this
        rw [if_neg hne]
        omega

/-- With no two records in one place, binding an entry changes its handle and
    nothing else. -/
theorem update_handle {svclist : List SvcInfo} {si : SvcInfo}
    (hdistinct : (svclist.map SvcInfo.addr).Nodup) (hmem : si ∈ svclist) (handle : UInt32) :
    update svclist { si with handle }
      = svclist.map fun e => if e.addr = si.addr then { e with handle } else e := by
  refine List.map_congr_left fun e he => ?_
  -- In one place there is one record, so the entry stored back is the entry found.
  by_cases h : e.addr = si.addr
  · rw [if_pos h, if_pos h, List.inj_on_of_nodup_map hdistinct he hmem h]
  · rw [if_neg h, if_neg h]

theorem update_addr (svclist : List SvcInfo) (si : SvcInfo) :
    (update svclist si).map SvcInfo.addr = svclist.map SvcInfo.addr :=
  Foundation.Keyed.map_field SvcInfo.addr _ _ fun _ _ haddr => haddr.symm

end ServiceManager

end ZeusOS
