import ZeusOS.Binder.Confined
import ZeusOS.Foundation.Footprint
import ZeusOS.ServiceManager.Names

/-!
# How Far a Name Is Read

The functions that are handed a name are handed everything from it to the end
of the memory. They stop where `strlen` meets a zero, or after as many bytes as
the length that was sent, and nothing has checked that either lies in the
message: the check made was for the length and one more, rounded up, and that
sum wraps.

What each of them reads is listed here, as lengths from the start of the name,
and shown to be its footprint. `reads_inside_iff` compares it with the message.

## Main definitions

* `strlenReads`, `findSvcReads`, `getServiceReads`, `addServiceReads`: The
  lengths that are read from the name on.
* `onTransactReads`: What a transaction reads of the name it carries, as places
  in the message and lengths.
* `Wraps`: The lengths that the check for room lets pass too easily.
* `Enclosed`: What keeps the reads inside.

## Theorems

* `getService_footprint`, `addService_footprint`: The lists are complete.
* `addServiceReads_le`: When a registration reads no more than it may.
* `lookup_reads`, `registration_reads`, `other_reads`: The reads of a
  transaction.
* `enclosed_payload`: What the functions go by.
* `reads_inside_iff`: When a name is read inside the message.
-/

namespace ZeusOS

namespace ServiceManager

open Foundation Foundation.Footprint Foundation.Words Binder

/-- `strlen` reads up to its zero, and past everything if there is none. -/
def strlenReads (name : List UInt8) : Nat := (strlen name).elim (name.length + 1) (· + 1)

/-- `find_svc` compares the name with every record of that length, until one is
    equal. -/
def findSvcReads (name : List UInt8) (len : UInt32) : List SvcInfo → List Nat
  | [] => []
  | si :: rest =>
    if len = si.len then
      [len.toNat] ++ (memEq len.toNat name si.name).elim [] fun eq =>
        if eq then [] else findSvcReads name len rest
    else findSvcReads name len rest

def getServiceReads (name : List UInt8) (svclist : List SvcInfo) : List Nat :=
  [strlenReads name] ++ (strlen name).elim [] fun len => findSvcReads name (UInt32.ofNat len) svclist

/-- `addService` copies the name if it was not found and there is memory. -/
def addServiceReads (alloc : Allocator) (name : List UInt8) (ref : BinderRef)
    (svclist : List SvcInfo) : List Nat :=
  if ref.handle = 0 ∨ toInt ref.len = 0 ∨ toInt ref.len > 127 then []
  else findSvcReads name ref.len svclist ++ (findSvc name ref.len svclist).elim [] fun
    | some _ => []
    | none =>
      match alloc.malloc (svclist.map SvcInfo.addr) (allocSize ref.len) with
      | none => []
      | some _ => [(ref.len + 1).toNat]

/-- What `onTransact` reads of a name, branch by branch: where, and how much. -/
def onTransactReads (alloc : Allocator) (txn : Txn) (msg : Parcel) (svclist : List SvcInfo) :
    Option (List (Nat × Nat)) :=
  if txn.target ≠ 0 then some []
  else if txn.code = pingTransaction then some []
  else msg.getUint32.bind fun (strictPolicy, msg) =>
    if strictPolicy ≠ 0 then some []
    else if txn.code = svcMgrGetService ∨ txn.code = svcMgrCheckService then
      msg.getString8.map fun
        | ((none, _), _) => []
        | ((some name, _), msg) => (getServiceReads (msg.buf.drop name) svclist).map (Prod.mk name)
    else if txn.code = svcMgrAddService then
      msg.getString8.bind fun
        | ((none, _), _) => some []
        | ((some name, _), _) => (readAddService txn msg).map fun
          | none => []
          | some (str, ref) => (addServiceReads alloc str ref svclist).map (Prod.mk name)
    else some []

theorem strlen_length {name : List UInt8} {n : Nat} (h : strlen name = some n) :
    n + 1 ≤ name.length := by
  induction name generalizing n with
  | nil => cases h
  | cons c name ih =>
      unfold strlen at h
      rw [List.length_cons]
      by_cases hzero : c = 0
      · rw [if_pos hzero, Option.some.injEq] at h
        omega
      · rw [if_neg hzero, Option.map_eq_some_iff] at h
        rcases h with ⟨m, hm, rfl⟩
        have := ih hm
        omega

/-- The count does not change if the bytes behind the zero are cut off. -/
theorem strlen_take {name : List UInt8} {k : Nat} (h : strlenReads name ≤ k) :
    strlen (name.take k) = strlen name := by
  unfold strlenReads at h
  cases hlen : strlen name with
  | none =>
      rw [hlen, Option.elim_none] at h
      rw [List.take_of_length_le (by omega), hlen]
  | some n =>
      rw [hlen, Option.elim_some] at h
      induction name generalizing n k with
      | nil => cases hlen
      | cons c name ih =>
          rcases k with _ | k
          · omega
          rw [List.take_succ_cons, strlen]
          rw [strlen] at hlen
          by_cases hzero : c = 0
          · rw [if_pos hzero] at hlen ⊢
            exact hlen
          · rw [if_neg hzero, Option.map_eq_some_iff] at hlen
            rcases hlen with ⟨m, hm, rfl⟩
            rw [if_neg hzero, ih m (by omega) hm]
            rfl

theorem strlen_footprint (name : List UInt8) : Footprint strlen name [strlenReads name] := by
  constructor
  · intro k hk
    exact strlen_take (hk _ (List.mem_singleton_self _))
  · intro len hlen n hn
    rw [List.mem_singleton] at hn
    rw [hn, strlenReads, hlen]
    exact strlen_length hlen

theorem memEq_footprint (n : Nat) (name s2 : List UInt8) :
    Footprint (fun name => memEq n name s2) name [n] := by
  constructor
  · intro k hk
    have hn := hk n (List.mem_singleton_self _)
    have hiff : n ≤ (name.take k).length ↔ n ≤ name.length := by
      rw [List.length_take]
      omega
    simp only [memEq, hiff, List.take_take, Nat.min_eq_left hn]
  · intro eq heq m hm
    rw [List.mem_singleton] at hm
    rw [hm]
    exact (memEq_eq_some heq).1

theorem findSvc_footprint (name : List UInt8) (len : UInt32) (svclist : List SvcInfo) :
    Footprint (fun name => findSvc name len svclist) name (findSvcReads name len svclist) := by
  induction svclist with
  | nil => exact footprint_const (some none) name
  | cons e rest ih =>
      unfold findSvc findSvcReads
      refine footprint_ite (fun _ => ?_) fun _ => ih
      refine footprint_bind (memEq_footprint len.toNat name e.name) fun eq _ => ?_
      exact footprint_ite (fun _ => footprint_const _ name) fun _ => ih

/-- All that `getService` reads of a name. -/
theorem getService_footprint (name : List UInt8) (svclist : List SvcInfo) :
    Footprint (fun name => getService name svclist) name (getServiceReads name svclist) := by
  unfold getService getServiceReads
  refine footprint_bind (strlen_footprint name) fun len _ => ?_
  exact footprint_map (findSvc_footprint name (UInt32.ofNat len) svclist) _

theorem copyName_footprint (name : List UInt8) (si : SvcInfo) :
    Footprint (fun name => copyName name si) name [(si.len + 1).toNat] := by
  constructor
  · intro k hk
    have hn := hk _ (List.mem_singleton_self _)
    have hiff : (si.len + 1).toNat ≤ (name.take k).length ↔ (si.len + 1).toNat ≤ name.length := by
      rw [List.length_take]
      omega
    simp only [copyName, hiff, List.take_take, Nat.min_eq_left hn]
  · intro si' hsi' n hn
    simp only [copyName, Option.ite_none_right_eq_some] at hsi'
    rw [List.mem_singleton] at hn
    rw [hn]
    exact hsi'.1.2

/-- All that `addService` reads of a name. -/
theorem addService_footprint (alloc : Allocator) (name : List UInt8) (ref : BinderRef)
    (svclist : List SvcInfo) :
    Footprint (fun name => addService alloc name ref svclist) name
      (addServiceReads alloc name ref svclist) := by
  unfold addService addServiceReads
  refine footprint_ite (fun _ => footprint_const _ name) fun _ => ?_
  refine footprint_bind (findSvc_footprint name ref.len svclist) fun found _ => ?_
  cases found with
  | some si => exact footprint_const _ name
  | none =>
      simp only
      cases alloc.malloc (svclist.map SvcInfo.addr) (allocSize ref.len) with
      | none => exact footprint_const _ name
      | some addr => exact footprint_map (footprint_then (copyName_footprint name _) _) _

theorem strlenReads_cons {c : UInt8} (hc : c ≠ 0) (name : List UInt8) :
    strlenReads (c :: name) = strlenReads name + 1 := by
  unfold strlenReads
  rw [strlen, if_neg hc]
  cases strlen name with
  | none => rfl
  | some n => rfl

/-- `strlen` stays within the first bytes exactly if one of them is zero. -/
theorem strlenReads_le {name : List UInt8} {m : Nat} (hm : m ≤ name.length) :
    strlenReads name ≤ m ↔ 0 ∈ name.take m := by
  induction name generalizing m with
  | nil =>
      have hone : strlenReads [] = 1 := rfl
      rw [List.length_nil, Nat.le_zero] at hm
      rw [hm, hone]
      exact ⟨fun h => absurd h (by decide), fun h => absurd h List.not_mem_nil⟩
  | cons c name ih =>
      rcases m with _ | m
      · rw [List.take_zero]
        refine ⟨fun h => ?_, fun h => absurd h List.not_mem_nil⟩
        by_cases hc : c = 0
        · rw [strlenReads, strlen, if_pos hc, Option.elim_some] at h
          omega
        · rw [strlenReads_cons hc] at h
          omega
      · rw [List.length_cons] at hm
        rw [List.take_succ_cons, List.mem_cons]
        by_cases hc : c = 0
        · rw [strlenReads, strlen, if_pos hc, Option.elim_some]
          exact ⟨fun _ => Or.inl hc.symm, fun _ => by omega⟩
        · rw [strlenReads_cons hc, or_iff_right (Ne.symm hc), ← ih (by omega)]
          omega

/-- Every comparison is of that many bytes, and there is one if and only if
    there is a record of that length. -/
theorem mem_findSvcReads {name : List UInt8} {len : UInt32} {svclist : List SvcInfo} {n : Nat}
    (h : n ∈ findSvcReads name len svclist) : n = len.toNat ∧ ∃ si ∈ svclist, si.len = len := by
  induction svclist with
  | nil => exact absurd h List.not_mem_nil
  | cons e rest ih =>
      have hlater : n ∈ findSvcReads name len rest →
          n = len.toNat ∧ ∃ si ∈ e :: rest, si.len = len := by
        intro hn
        rcases ih hn with ⟨hn, si, hsi, hlen⟩
        exact ⟨hn, si, List.mem_cons_of_mem _ hsi, hlen⟩
      unfold findSvcReads at h
      by_cases hlen : len = e.len
      · rw [if_pos hlen] at h
        rcases List.mem_append.mp h with hn | hn
        · exact ⟨List.mem_singleton.mp hn, e, List.mem_cons_self, hlen.symm⟩
        · cases heq : memEq len.toNat name e.name with
          | none =>
              rw [heq] at hn
              exact absurd hn List.not_mem_nil
          | some eq =>
              rw [heq, Option.elim_some] at hn
              by_cases htrue : eq = true
              · rw [if_pos htrue] at hn
                exact absurd hn List.not_mem_nil
              · rw [if_neg htrue] at hn
                exact hlater hn
      · rw [if_neg hlen] at h
        exact hlater h

theorem findSvcReads_mem (name : List UInt8) {len : UInt32} {svclist : List SvcInfo}
    {si : SvcInfo} (hmem : si ∈ svclist) (hlen : si.len = len) :
    len.toNat ∈ findSvcReads name len svclist := by
  induction svclist with
  | nil => exact absurd hmem List.not_mem_nil
  | cons e rest ih =>
      unfold findSvcReads
      by_cases he : len = e.len
      · rw [if_pos he]
        exact List.mem_append_left _ (List.mem_singleton_self _)
      · rw [if_neg he]
        rcases List.mem_cons.mp hmem with rfl | hmem
        · exact absurd hlen.symm he
        · exact ih hmem

theorem mem_addServiceReads {alloc : Allocator} {name : List UInt8} {ref : BinderRef}
    {svclist : List SvcInfo} {n : Nat} :
    n ∈ addServiceReads alloc name ref svclist ↔ ¬ Invalid ref ∧
      (n ∈ findSvcReads name ref.len svclist ∨
        findSvc name ref.len svclist = some none ∧ n = (ref.len + 1).toNat ∧
          alloc.malloc (svclist.map SvcInfo.addr) (allocSize ref.len) ≠ none) := by
  unfold addServiceReads
  by_cases hinvalid : ref.handle = 0 ∨ toInt ref.len = 0 ∨ toInt ref.len > 127
  · rw [if_pos hinvalid]
    exact ⟨fun h => absurd h List.not_mem_nil, fun h => absurd hinvalid h.1⟩
  · rw [if_neg hinvalid, List.mem_append, and_iff_right (show ¬ Invalid ref from hinvalid)]
    refine or_congr_right ?_
    -- The name is copied if the search came to nothing and there was memory.
    rcases findSvc name ref.len svclist with _ | _ | si
    · simp
    · cases alloc.malloc (svclist.map SvcInfo.addr) (allocSize ref.len) with
      | none => simp
      | some addr => simp
    · simp

/-- A lookup stays within the first bytes exactly if one of them is zero. -/
theorem getServiceReads_le {name : List UInt8} {svclist : List SvcInfo} {m : Nat}
    (hm : m ≤ name.length) :
    (∀ n ∈ getServiceReads name svclist, n ≤ m) ↔ 0 ∈ name.take m := by
  rw [← strlenReads_le hm]
  constructor
  · intro h
    exact h _ (List.mem_append_left _ (List.mem_singleton_self _))
  · intro h n hn
    rcases List.mem_append.mp hn with hn | hn
    · rw [List.mem_singleton.mp hn]
      exact h
    · -- As many bytes are compared as were counted.
      rw [strlenReads] at h
      cases hlen : strlen name with
      | none =>
          rw [hlen] at hn
          exact absurd hn List.not_mem_nil
      | some len =>
          rw [hlen, Option.elim_some] at h hn
          have hle : (UInt32.ofNat len).toNat ≤ len := by
            rw [UInt32.toNat_ofNat']
            exact Nat.mod_le _ _
          rw [(mem_findSvcReads hn).1]
          omega

/-- The lengths that wrap when the room for them is checked are those within
    three of the largest, and only they can be too long. -/
def Wraps (len : UInt32) : Prop := 0xfffffffc ≤ len

/-- A registration of a length that does not wrap stays within the room for
    it. -/
theorem addServiceReads_small {alloc : Allocator} {name : List UInt8} {ref : BinderRef}
    {svclist : List SvcInfo} {m : Nat} (hroom : (Parcel.alignSize (ref.len + 1)).toNat ≤ m)
    (hwraps : ¬ Wraps ref.len) : ∀ n ∈ addServiceReads alloc name ref svclist, n ≤ m := by
  intro n hn
  have hsmall : ref.len.toNat < 2 ^ 32 - 4 := by
    rw [Wraps, UInt32.le_iff_toNat_le, not_le] at hwraps
    exact hwraps
  -- Nothing wraps, so the room is for the length and one more.
  have hsucc : (ref.len + 1).toNat = ref.len.toNat + 1 := by
    rw [UInt32.toNat_add]
    change (ref.len.toNat + 1) % 2 ^ 32 = _
    omega
  rw [alignSize_toNat _ (by omega), hsucc] at hroom
  have hspec := alignNat_spec (ref.len.toNat + 1)
  rcases mem_addServiceReads.mp hn with ⟨_, hfound | ⟨_, rfl, _⟩⟩
  · rw [(mem_findSvcReads hfound).1]
    omega
  · omega

/-- One of a length that wraps does if nothing is compared or copied. -/
theorem addServiceReads_wraps {alloc : Allocator} {name : List UInt8} {ref : BinderRef}
    {svclist : List SvcInfo} {m : Nat} (hm : m + 8 < 2 ^ 32) (hwraps : Wraps ref.len) :
    (∀ n ∈ addServiceReads alloc name ref svclist, n ≤ m) ↔
      (¬ Invalid ref → (∀ si ∈ svclist, si.len ≠ ref.len) ∧
        (ref.len = 0xffffffff ∨
          alloc.malloc (svclist.map SvcInfo.addr) (allocSize ref.len) = none)) := by
  have hlt := ref.len.toNat_lt
  have hlarge : 2 ^ 32 - 4 ≤ ref.len.toNat := UInt32.le_iff_toNat_le.mp hwraps
  constructor
  · intro h hvalid
    have hnone : ∀ si ∈ svclist, si.len ≠ ref.len := by
      intro si hsi hlen
      have := h _ (mem_addServiceReads.mpr ⟨hvalid, Or.inl (findSvcReads_mem name hsi hlen)⟩)
      omega
    refine ⟨hnone, ?_⟩
    by_contra hboth
    rw [not_or] at hboth
    have := h _ (mem_addServiceReads.mpr
      ⟨hvalid, Or.inr ⟨findSvc_of_ne hnone, rfl, hboth.2⟩⟩)
    have hlast : ref.len.toNat ≠ 2 ^ 32 - 1 := fun hc => hboth.1 (UInt32.toNat_inj.mp hc)
    rw [UInt32.toNat_add] at this
    change (ref.len.toNat + 1) % 2 ^ 32 ≤ m at this
    omega
  · intro h n hn
    rcases mem_addServiceReads.mp hn with ⟨hvalid, hfound | ⟨_, rfl, hmalloc⟩⟩
    · rcases mem_findSvcReads hfound with ⟨_, si, hsi, hlen⟩
      exact absurd hlen ((h hvalid).1 si hsi)
    · rcases (h hvalid).2 with hlast | hrefused
      · rw [hlast]
        exact Nat.zero_le m
      · exact absurd hrefused hmalloc

/-- A registration of a length that was checked stays within the room for it,
    and one of a length that wraps does if nothing is compared or copied. -/
theorem addServiceReads_le {alloc : Allocator} {name : List UInt8} {ref : BinderRef}
    {svclist : List SvcInfo} {m : Nat} (hroom : (Parcel.alignSize (ref.len + 1)).toNat ≤ m)
    (hm : m + 8 < 2 ^ 32) :
    (∀ n ∈ addServiceReads alloc name ref svclist, n ≤ m) ↔
      (¬ Invalid ref → Wraps ref.len → (∀ si ∈ svclist, si.len ≠ ref.len) ∧
        (ref.len = 0xffffffff ∨
          alloc.malloc (svclist.map SvcInfo.addr) (allocSize ref.len) = none)) := by
  by_cases hwraps : Wraps ref.len
  · rw [addServiceReads_wraps hm hwraps]
    exact ⟨fun h hvalid _ => h hvalid, fun h hvalid => h hvalid hwraps⟩
  · exact iff_of_true (addServiceReads_small hroom hwraps) fun _ h => absurd h hwraps

/-- What keeps the reads of a name inside the message: there is a zero in the
    message behind the start of a string that is looked up, and a length that
    wraps is neither compared nor copied. -/
structure Enclosed (alloc : Allocator) (mem : Mapping) (txn : Txn) (svclist : List SvcInfo) :
    Prop where
  lookup : ∀ len str, LooksUp mem txn len str → 0 ∈ (payloadOf mem txn).drop 8
  registration : ∀ ref str, Registers mem txn ref str → ¬ Invalid ref → Wraps ref.len →
    (∀ si ∈ svclist, si.len ≠ ref.len) ∧ (ref.len = 0xffffffff ∨
      alloc.malloc (svclist.map SvcInfo.addr) (allocSize ref.len) = none)

/-- The name of a lookup starts behind two words, and there is room for it. -/
theorem looksUp_place {mem : Mapping} {txn : Txn} {len : UInt32} {str : List UInt8}
    (h : LooksUp mem txn len str) : str = (mem.bytes txn.buffer).drop 8 ∧ 8 ≤ txn.dataSize.toNat := by
  rcases h.carried with ⟨msg₁, msg₂, ptr, hpolicy, hstring, hstr⟩
  rcases string_behind_policy hpolicy hstring with ⟨_, rfl, hbuf, height, _⟩
  rw [hbuf] at hstr
  exact ⟨hstr, height⟩

theorem registers_place {mem : Mapping} {txn : Txn} {ref : BinderRef} {str : List UInt8}
    (h : Registers mem txn ref str) : str = (mem.bytes txn.buffer).drop 8 ∧ 8 ≤ txn.dataSize.toNat ∧
      (Parcel.alignSize (ref.len + 1)).toNat ≤ txn.dataSize.toNat - 8 := by
  rcases h.carried with ⟨msg, hpolicy, hread⟩
  exact (readAddService_some hpolicy hread).2

section Transactions

variable {alloc : Allocator} {mem : Mapping} {txn : Txn} {svclist : List SvcInfo}

theorem lookup_reads {len : UInt32} {str : List UInt8} (h : LooksUp mem txn len str) :
    onTransactReads alloc txn (Parcel.bioInitFromTxn mem txn) svclist
      = some ((getServiceReads str svclist).map (Prod.mk 8)) := by
  rcases h.carried with ⟨msg₁, msg₂, ptr, hpolicy, hstring, hstr⟩
  have hping : txn.code ≠ pingTransaction := by
    rcases h.code with hcode | hcode
    · rw [hcode]
      decide
    · rw [hcode]
      decide
  rcases string_behind_policy hpolicy hstring with ⟨_, rfl, _⟩
  rw [onTransactReads, if_neg (not_not.mpr h.target), if_neg hping, hpolicy]
  simp only [Option.bind_some, ne_eq, not_true, if_false]
  rw [if_pos h.code, hstring, hstr]
  rfl

theorem registration_reads {ref : BinderRef} {str : List UInt8} (h : Registers mem txn ref str) :
    onTransactReads alloc txn (Parcel.bioInitFromTxn mem txn) svclist
      = some ((addServiceReads alloc str ref svclist).map (Prod.mk 8)) := by
  rcases h.carried with ⟨msg, hpolicy, hread⟩
  -- A name was read, so there is a string, and it is where every name is.
  have hstring := hread
  rw [readAddService, Option.bind_eq_some_iff] at hstring
  rcases hstring with ⟨⟨⟨ptr, len⟩, q⟩, hstring, hrest⟩
  cases ptr with
  | none =>
      simp only [Option.some.injEq, reduceCtorEq] at hrest
  | some ptr =>
      rcases string_behind_policy hpolicy hstring with ⟨_, rfl, _⟩
      rw [onTransactReads, if_neg (not_not.mpr h.target), if_neg (by rw [h.code]; decide), hpolicy]
      simp only [Option.bind_some, ne_eq, not_true, if_false]
      rw [if_neg (by rw [h.code]; decide), if_pos h.code, hstring]
      simp only [Option.bind_some, hread, Option.map_some]

/-- Whatever else a transaction is, it comes to no name. -/
theorem other_reads (hmem : Readable mem txn) (hlookup : ¬ ∃ len str, LooksUp mem txn len str)
    (hreg : ¬ ∃ ref str, Registers mem txn ref str) :
    onTransactReads alloc txn (Parcel.bioInitFromTxn mem txn) svclist = some [] := by
  unfold onTransactReads
  by_cases htarget : txn.target ≠ 0
  · rw [if_pos htarget]
  rw [if_neg htarget]
  by_cases hping : txn.code = pingTransaction
  · rw [if_pos hping]
  rcases getUint32_readable hmem (init_confined mem txn) with ⟨policy, msg, hpolicy, hmsg⟩
  rw [if_neg hping, hpolicy, Option.bind_some]
  by_cases hstrict : policy ≠ 0
  · simp only [if_pos hstrict]
  simp only [if_neg hstrict]
  rw [not_not] at htarget hstrict
  subst hstrict
  rcases getString8_readable hmem hmsg with ⟨ptr, len, msg', hstring, hmsg'⟩
  by_cases hget : txn.code = svcMgrGetService ∨ txn.code = svcMgrCheckService
  · rw [if_pos hget, hstring]
    cases ptr with
    | none => rfl
    | some ptr =>
        exact absurd ⟨len, _, htarget, hget, msg, msg', ptr, hpolicy, hstring, rfl⟩ hlookup
  rw [if_neg hget]
  by_cases hadd : txn.code = svcMgrAddService
  · rw [if_pos hadd, hstring]
    cases ptr with
    | none => rfl
    | some ptr =>
        rcases getRef_readable hmem hmsg' with ⟨handle, msg₃, href, hmsg₃⟩
        rcases getUint32_readable hmem hmsg₃ with ⟨isolated, msg₄, hisolated, _⟩
        have hread : ∃ ref str, readAddService txn msg = some (some (str, ref)) := by
          simp only [readAddService, hstring, Option.bind_some, href, hisolated, Option.map_some]
          exact ⟨_, _, rfl⟩
        rcases hread with ⟨ref, str, hread⟩
        exact absurd ⟨ref, str, htarget, hadd, msg, hpolicy, hread⟩ hreg
  · rw [if_neg hadd]

/-- Reads from the eighth byte on. -/
theorem reads_behind (reads : List Nat) {size : Nat} (hsize : 8 ≤ size) :
    (∀ r ∈ reads.map (Prod.mk 8), r.1 + r.2 ≤ size) ↔ ∀ n ∈ reads, n ≤ size - 8 := by
  constructor
  · intro h n hn
    have := h _ (List.mem_map_of_mem hn)
    simp only at this
    omega
  · intro h r hr
    rcases List.mem_map.mp hr with ⟨n, hn, rfl⟩
    have := h n hn
    simp only
    omega

/-- The bytes from the start of a name on, as far as the message goes. -/
theorem payload_behind {str : List UInt8} (hstr : str = (mem.bytes txn.buffer).drop 8) :
    (payloadOf mem txn).drop 8 = str.take (txn.dataSize.toNat - 8) := by
  rw [payloadOf, List.drop_take, hstr]

theorem lookup_inside_iff {len : UInt32} {str : List UInt8} (hmem : Readable mem txn)
    (h : LooksUp mem txn len str) :
    (∀ n ∈ getServiceReads str svclist, n ≤ txn.dataSize.toNat - 8) ↔
      0 ∈ (payloadOf mem txn).drop 8 := by
  rcases looksUp_place h with ⟨hstr, height⟩
  have hbytes := hmem.bytes
  rw [payload_behind hstr, getServiceReads_le]
  rw [hstr, List.length_drop]
  omega

theorem registration_inside_iff {ref : BinderRef} {str : List UInt8}
    (h : Registers mem txn ref str) :
    (∀ n ∈ addServiceReads alloc str ref svclist, n ≤ txn.dataSize.toNat - 8) ↔
      (¬ Invalid ref → Wraps ref.len → (∀ si ∈ svclist, si.len ≠ ref.len) ∧
        (ref.len = 0xffffffff ∨
          alloc.malloc (svclist.map SvcInfo.addr) (allocSize ref.len) = none)) := by
  rcases registers_place h with ⟨_, height, hroom⟩
  have hlt := txn.dataSize.toNat_lt
  exact addServiceReads_le hroom (by omega)

/-- With the reads inside, the bytes of the message are all that the functions
    go by. -/
theorem enclosed_payload (hmem : Readable mem txn) (h : Enclosed alloc mem txn svclist) :
    (∀ len str, LooksUp mem txn len str →
        getService ((payloadOf mem txn).drop 8) svclist = getService str svclist) ∧
      ∀ ref str, Registers mem txn ref str →
        addService alloc ((payloadOf mem txn).drop 8) ref svclist
          = addService alloc str ref svclist := by
  constructor
  · intro len str hlookup
    rw [payload_behind (looksUp_place hlookup).1]
    refine (getService_footprint str svclist).enough _ ?_
    exact (lookup_inside_iff hmem hlookup).mpr (h.lookup len str hlookup)
  · intro ref str hreg
    rw [payload_behind (registers_place hreg).1]
    refine (addService_footprint alloc str ref svclist).enough _ ?_
    exact (registration_inside_iff hreg).mpr (h.registration ref str hreg)

end Transactions

/-- For every list and every transaction, of any payload, size and offsets, that
    can be read at all: the bytes of the name that are counted, compared and
    copied lie in the payload exactly if a string that is looked up has a zero
    in the payload at or behind its start, and a registration that comes to the
    search has a length below the last four, or one that no record has and that
    is minus one or finds no memory. Then the functions do what they would do
    if the memory ended with the payload. -/
theorem reads_inside_iff (alloc : Allocator) (mem : Mapping) (txn : Txn)
    (svclist : List SvcInfo) (hmem : Readable mem txn) :
    ∃ reads, onTransactReads alloc txn (Parcel.bioInitFromTxn mem txn) svclist = some reads ∧
      ((∀ r ∈ reads, r.1 + r.2 ≤ txn.dataSize.toNat) ↔ Enclosed alloc mem txn svclist) ∧
      (Enclosed alloc mem txn svclist →
        (∀ len str, LooksUp mem txn len str →
          getService ((payloadOf mem txn).drop 8) svclist = getService str svclist) ∧
        ∀ ref str, Registers mem txn ref str →
          addService alloc ((payloadOf mem txn).drop 8) ref svclist
            = addService alloc str ref svclist) := by
  by_cases hlookup : ∃ len str, LooksUp mem txn len str
  · rcases hlookup with ⟨len, str, hlookup⟩
    refine ⟨_, lookup_reads hlookup, ?_, enclosed_payload hmem⟩
    rw [reads_behind _ (looksUp_place hlookup).2, lookup_inside_iff hmem hlookup]
    refine ⟨fun h => ⟨fun _ _ _ => h, fun _ _ hreg => ?_⟩, fun h => h.lookup len str hlookup⟩
    -- A lookup is no registration.
    have hcode := hlookup.code
    rw [hreg.code] at hcode
    exact absurd hcode (by decide)
  by_cases hreg : ∃ ref str, Registers mem txn ref str
  · rcases hreg with ⟨ref, str, hreg⟩
    refine ⟨_, registration_reads hreg, ?_, enclosed_payload hmem⟩
    rw [reads_behind _ (registers_place hreg).2.1]
    constructor
    · intro h
      refine ⟨fun len str h => absurd ⟨len, str, h⟩ hlookup, fun ref' str' hreg' => ?_⟩
      -- However the registration is described, its reads are the same.
      have hreads : onTransactReads alloc txn (Parcel.bioInitFromTxn mem txn) svclist
          = some ((addServiceReads alloc str ref svclist).map (Prod.mk 8)) := registration_reads hreg
      rw [registration_reads hreg', Option.some.injEq] at hreads
      rw [← reads_behind _ (registers_place hreg).2.1, ← hreads,
        reads_behind _ (registers_place hreg).2.1] at h
      exact (registration_inside_iff hreg').mp h
    · intro h
      exact (registration_inside_iff hreg).mpr (h.registration ref str hreg)
  · refine ⟨[], other_reads hmem hlookup hreg, ⟨fun _ => ?_, fun _ r hr => ?_⟩,
      enclosed_payload hmem⟩
    · exact ⟨fun len str h => absurd ⟨len, str, h⟩ hlookup,
        fun ref str h => absurd ⟨ref, str, h⟩ hreg⟩
    · exact absurd hr List.not_mem_nil

/-- A lookup of three letters and a fourth where the zero should be. -/
def unterminated : List UInt8 := le32 0 ++ le32 3 ++ [0x61, 0x62, 0x63, 0x64]

def unterminatedTxn : Txn := { plainTxn unterminated with code := svcMgrCheckService }

theorem unterminated_readable : Readable (plainMapping unterminated) unterminatedTxn :=
  ⟨by decide, by decide⟩

theorem reads_inside_iff_letters : ∃ reads, onTransactReads blocks unterminatedTxn
      (Parcel.bioInitFromTxn (plainMapping unterminated) unterminatedTxn) [] = some reads ∧
    ((∀ r ∈ reads, r.1 + r.2 ≤ unterminatedTxn.dataSize.toNat)
      ↔ Enclosed blocks (plainMapping unterminated) unterminatedTxn []) := by
  rcases reads_inside_iff blocks _ _ [] unterminated_readable with ⟨reads, hreads, hiff, _⟩
  exact ⟨reads, hreads, hiff⟩

/-- The count goes on behind the message. -/
theorem name_unterminated : ¬ ∀ (alloc : Allocator) (mem : Mapping) (txn : Txn)
    (svclist : List SvcInfo), Readable mem txn → ∀ reads,
      onTransactReads alloc txn (Parcel.bioInitFromTxn mem txn) svclist = some reads →
        ∀ r ∈ reads, r.1 + r.2 ≤ txn.dataSize.toNat := by
  intro h
  have hreads : onTransactReads blocks unterminatedTxn
      (Parcel.bioInitFromTxn (plainMapping unterminated) unterminatedTxn) [] = some [(8, 5)] := by
    decide +kernel
  have := h _ _ _ _ unterminated_readable _ hreads (8, 5) (List.mem_singleton_self _)
  exact absurd this (by decide)

end ServiceManager

end ZeusOS
