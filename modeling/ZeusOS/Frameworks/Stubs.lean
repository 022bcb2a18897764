import ZeusOS.Binder.Arrival
import ZeusOS.Frameworks.TestService
import ZeusOS.InputManager.Manager

/-!
# Stubs

The three `onTransact` functions seen from the message they take apart. What a
stub makes of a transaction is decided by what its `get` calls yield, one after
the other; the first is the same in all of them.

A `Stub` is the calls as a tree. `Stub.run` carries them out and keeps what was
yielded, which `onTransact` forgets, and the message as it is left behind. Each
`onTransact` is shown to be the run of its stub, so what is said of the run is
said of the function.

## Main definitions

* `CharPtr`: What a string is to the stub.
* `Stub`, `Stub.run`: The calls, and carrying them out.
* `Stub.strict`: The call all stubs begin with.
* `managerStub`, `inputStub`, `testStub`: The three stubs.
* `Stub.Asks`: The calls made where no string is missing.

## Theorems

* `onTransact_managerStub`, `onTransact_inputStub`, `onTransact_testStub`:
  Each function is its stub.
* `run_of_asks`: A run yields what the calls yield.
-/

namespace ZeusOS

namespace Frameworks

open Foundation.Words Binder ServiceManager
open InputManager (BnInputManager AddRequest answered listenerDescSize binderDeathSize)

/-- A `char *` into a message: its address, and the bytes from there on. -/
structure CharPtr where
  addr : UInt32
  bytes : List UInt8

/-- The `get` calls of a stub, each with what follows it. -/
inductive Stub (α : Type) where
  | done (a : α)
  | uint32 (k : UInt32 → Stub α)
  | fd (k : UInt32 → Stub α)
  | ref (k : UInt32 → Stub α)
  | string8 (k : Option CharPtr → UInt32 → Stub α)

namespace Stub

variable {α : Type}

/-- What was yielded comes before what was yielded later. -/
def noted (got : Got) (res : α × List Got × Parcel) : α × List Got × Parcel :=
  (res.1, got :: res.2.1, res.2.2)

/-- What the calls come to, what each of them yielded, and what is left of the
    message. -/
def run : Stub α → Parcel → Option (α × List Got × Parcel)
  | done a, msg => some (a, [], msg)
  | uint32 k, msg => msg.getUint32.bind fun (v, msg) => ((k v).run msg).map (noted (.word v))
  | fd k, msg => msg.getFd.bind fun (v, msg) => ((k v).run msg).map (noted (.word v))
  | ref k, msg => msg.getRef.bind fun (v, msg) => ((k v).run msg).map (noted (.word v))
  | string8 k, msg => msg.getString8.bind fun ((ptr, size), msg) =>
    let str := ptr.map fun ptr => CharPtr.mk (msg.data0 + UInt32.ofNat ptr) (msg.buf.drop ptr)
    ((k str size).run msg).map
      (noted (.string8 (str.map fun str => str.bytes.take (size.toNat + 1)) size))

/-- All stubs look at the policy word first. -/
def strict (refused : α) (k : Stub α) : Stub α :=
  uint32 fun strictPolicy => if strictPolicy ≠ 0 then done refused else k

end Stub

/-- `BnServiceManager::onTransact`. -/
def managerStub (alloc : Allocator) (txn : Txn) (reply : Parcel) (svclist : List SvcInfo) :
    Stub (Option (Handled (List SvcInfo))) :=
  let refuse (reply : Parcel) : Handled (List SvcInfo) :=
    { status := -1, reply, writes := [], state := svclist }
  if txn.target ≠ 0 then .done (some (refuse reply))
  else if txn.code = pingTransaction then
    .done (some { status := 0, reply, writes := [], state := svclist })
  else .strict ((reply.putUint32 0xffffffff).map refuse)
    (if txn.code = svcMgrGetService ∨ txn.code = svcMgrCheckService then
      .string8 fun
        | none, _ => .done (some (refuse reply))
        | some name, _ => .done ((getService name.bytes svclist).bind fun handle =>
          (if handle ≠ 0 then reply.putRef handle else reply.putUint32 0).map fun reply =>
            { status := 0, reply, writes := [], state := svclist })
    else if txn.code = svcMgrAddService then
      .string8 fun
        | none, _ => .done (some (refuse reply))
        | some name, len => .ref fun handle => .uint32 fun isolated =>
          .done ((addService alloc name.bytes
            { len
              senderEuid := txn.senderEuid
              senderPid := txn.senderPid
              allowIsolated := if isolated ≠ 0 then 1 else 0
              handle } svclist).bind fun (res, writes, svclist) =>
            if res ≠ 0 then some { status := -1, reply, writes, state := svclist }
            else (reply.putUint32 0).map fun reply =>
              { status := 0, reply, writes, state := svclist })
    else .done (some (refuse reply)))

/-- `BnInputManager::onTransact`. -/
def inputStub (alloc : Allocator) (dup : UInt32 → Int32) (txn : Txn) (reply : Parcel)
    (m : BnInputManager) : Stub (Option (Handled BnInputManager)) :=
  let refuse (reply : Parcel) : Handled BnInputManager :=
    { status := -1, reply, writes := [], state := m }
  .strict ((reply.putUint32 0xffffffff).map refuse)
    (if txn.code = inputManagerAddListener then
      .uint32 fun iType => .uint32 fun iUid => .fd fun fd => .string8 fun pcName _ =>
        .ref fun iHandle =>
          let req : AddRequest := { iType, iUid, fd, pcName := pcName.map CharPtr.addr, iHandle }
          .done ((alloc.malloc m.heap listenerDescSize).bind fun addr =>
            (alloc.malloc (addr :: m.heap) binderDeathSize).bind fun death =>
              answered reply
                (InputManager.addListener (req.desc dup addr death) (m.prepare dup req addr death)))
    else if txn.code = inputManagerDelListener then
      .uint32 fun iUid => .done (answered reply (InputManager.delListener iUid m))
    else .done (some (refuse reply)))

/-- `BnTestService::onTransact`. -/
def testStub (txn : Txn) (reply : Parcel) (service : BnTestService) :
    Stub (Option (Handled BnTestService)) :=
  let refuse (reply : Parcel) : Handled BnTestService :=
    { status := -1, reply, writes := [], state := service }
  .strict ((reply.putUint32 0xffffffff).map refuse)
    (if txn.code = helloSvrCmdSayHelloTo then
      .string8 fun str _ =>
        .done ((BnTestService.hello (str.map CharPtr.bytes) service).bind fun (iRet, service) =>
          (reply.putUint32 iRet.toUInt32).map fun reply =>
            { status := 0, reply, writes := [], state := service })
    else .done (some (refuse reply)))

/-- A run of the call all stubs begin with. -/
theorem run_strict {α : Type} (refused : Option α) (k : Stub (Option α)) (msg : Parcel) :
    ((Stub.strict refused k).run msg).bind Prod.fst
      = msg.getUint32.bind fun (strictPolicy, msg) =>
          if strictPolicy ≠ 0 then refused else (k.run msg).bind Prod.fst := by
  simp only [Stub.strict, Stub.run]
  rcases msg.getUint32 with _ | ⟨w, msg⟩
  · rfl
  · simp only [Option.bind_some]
    by_cases hw : w ≠ 0
    · rw [if_pos hw, if_pos hw]
      rfl
    · rw [if_neg hw, if_neg hw]
      rcases k.run msg with _ | ⟨a, gots, msg⟩
      · rfl
      · rfl

theorem onTransact_testStub (txn : Txn) (msg reply : Parcel) (service : BnTestService) :
    BnTestService.onTransact txn msg reply service
      = ((testStub txn reply service).run msg).bind Prod.fst := by
  simp only [testStub, run_strict, BnTestService.onTransact]
  rcases msg.getUint32 with _ | ⟨w, msg⟩
  · rfl
  · simp only [Option.bind_some]
    by_cases hw : w ≠ 0
    · rw [if_pos hw, if_pos hw]
    · rw [if_neg hw, if_neg hw]
      by_cases hcode : txn.code = helloSvrCmdSayHelloTo
      · rw [if_pos hcode, if_pos hcode]
        simp only [Stub.run]
        rcases msg.getString8 with _ | ⟨⟨ptr, size⟩, msg⟩
        · rfl
        · simp only [Option.bind_some, Option.map_some, Stub.noted, Option.map_map]
          rfl
      · rw [if_neg hcode, if_neg hcode]
        rfl

theorem onTransact_inputStub (alloc : Allocator) (dup : UInt32 → Int32) (txn : Txn)
    (msg reply : Parcel) (m : BnInputManager) :
    InputManager.onTransact alloc dup txn msg reply m
      = ((inputStub alloc dup txn reply m).run msg).bind Prod.fst := by
  simp only [inputStub, run_strict, InputManager.onTransact]
  rcases msg.getUint32 with _ | ⟨w, msg⟩
  · rfl
  · simp only [Option.bind_some]
    by_cases hw : w ≠ 0
    · rw [if_pos hw, if_pos hw]
    · rw [if_neg hw, if_neg hw]
      by_cases hadd : txn.code = inputManagerAddListener
      · rw [if_pos hadd, if_pos hadd]
        simp only [InputManager.readAddListener, Stub.run]
        -- A call that faults does so before or after the record has its memory.
        rcases msg.getUint32 with _ | ⟨iType, msg⟩
        · exact Option.bind_fun_none _
        simp only [Option.bind_some]
        rcases msg.getUint32 with _ | ⟨iUid, msg⟩
        · exact Option.bind_fun_none _
        simp only [Option.bind_some]
        rcases msg.getFd with _ | ⟨fd, msg⟩
        · exact Option.bind_fun_none _
        simp only [Option.bind_some]
        rcases msg.getString8 with _ | ⟨⟨ptr, len⟩, msg⟩
        · exact Option.bind_fun_none _
        simp only [Option.bind_some]
        rcases href : msg.getRef with _ | ⟨iHandle, msg'⟩
        · exact Option.bind_fun_none _
        -- The name is in the message, which is still where it was.
        have hsame := (getRef_same href).data0
        simp only [Option.bind_some, Option.map_some, Option.map_map, hsame]
        rfl
      · rw [if_neg hadd, if_neg hadd]
        by_cases hdel : txn.code = inputManagerDelListener
        · rw [if_pos hdel, if_pos hdel]
          simp only [Stub.run]
          rcases msg.getUint32 with _ | ⟨iUid, msg⟩
          · rfl
          · rfl
        · rw [if_neg hdel, if_neg hdel]
          rfl

theorem onTransact_managerStub (alloc : Allocator) (txn : Txn) (msg reply : Parcel)
    (svclist : List SvcInfo) :
    ServiceManager.onTransact alloc txn msg reply svclist
      = ((managerStub alloc txn reply svclist).run msg).bind Prod.fst := by
  unfold managerStub ServiceManager.onTransact
  by_cases htarget : txn.target ≠ 0
  · rw [if_pos htarget, if_pos htarget]
    rfl
  rw [if_neg htarget, if_neg htarget]
  by_cases hping : txn.code = pingTransaction
  · rw [if_pos hping, if_pos hping]
    rfl
  rw [if_neg hping, if_neg hping, run_strict]
  rcases msg.getUint32 with _ | ⟨w, msg⟩
  · rfl
  simp only [Option.bind_some]
  by_cases hw : w ≠ 0
  · rw [if_pos hw, if_pos hw]
  rw [if_neg hw, if_neg hw]
  by_cases hget : txn.code = svcMgrGetService ∨ txn.code = svcMgrCheckService
  · rw [if_pos hget, if_pos hget]
    simp only [Stub.run]
    rcases msg.getString8 with _ | ⟨⟨_ | name, len⟩, msg⟩
    · rfl
    · rfl
    · rfl
  rw [if_neg hget, if_neg hget]
  by_cases hadd : txn.code = svcMgrAddService
  · rw [if_pos hadd, if_pos hadd]
    simp only [Stub.run, readAddService]
    rcases msg.getString8 with _ | ⟨⟨_ | name, len⟩, msg⟩
    · rfl
    · rfl
    simp only [Option.bind_some, Option.map_some, Stub.run]
    rcases msg.getRef with _ | ⟨handle, msg⟩
    · rfl
    simp only [Option.bind_some]
    rcases msg.getUint32 with _ | ⟨isolated, msg⟩
    · rfl
    · rfl
  · rw [if_neg hadd, if_neg hadd]
    rfl

/-- A stub makes these calls, as long as no string is missing. -/
inductive Stub.Asks {α : Type} : Stub α → List GetOp → Prop
  | done (a : α) : Asks (.done a) []
  | uint32 {k : UInt32 → Stub α} {ops : List GetOp} (hk : ∀ v, Asks (k v) ops) :
      Asks (.uint32 k) (.uint32 :: ops)
  | fd {k : UInt32 → Stub α} {ops : List GetOp} (hk : ∀ v, Asks (k v) ops) :
      Asks (.fd k) (.fd :: ops)
  | ref {k : UInt32 → Stub α} {ops : List GetOp} (hk : ∀ v, Asks (k v) ops) :
      Asks (.ref k) (.ref :: ops)
  | string8 {k : Option CharPtr → UInt32 → Stub α} {ops : List GetOp}
      (hk : ∀ str size, Asks (k (some str) size) ops) : Asks (.string8 k) (.string8 :: ops)

/-- A run yields what the calls yield, and leaves the message as they do. -/
theorem run_of_asks {α : Type} {D : Stub α} {ops : List GetOp} (h : D.Asks ops) {msg msg' : Parcel}
    {gots : List Got} (hgets : gets ops msg = some (gots, msg'))
    (hpresent : ∀ got ∈ gots, got.Present) : ∃ a, D.run msg = some (a, gots, msg') := by
  induction h generalizing msg gots with
  | done a =>
      simp only [gets, Option.some.injEq, Prod.mk.injEq] at hgets
      rcases hgets with ⟨rfl, rfl⟩
      exact ⟨a, rfl⟩
  | uint32 _ ih | fd _ ih | ref _ ih =>
      rcases gets_cons_some hgets with ⟨got, q, rest, happly, hrest, rfl⟩
      simp only [GetOp.apply, Option.map_eq_some_iff, Prod.mk.injEq, Prod.exists] at happly
      rcases happly with ⟨v, _, hget, rfl, rfl⟩
      rcases ih v hrest fun got hgot => hpresent got (List.mem_cons_of_mem _ hgot) with ⟨a, ha⟩
      refine ⟨a, ?_⟩
      simp only [Stub.run, hget, Option.bind_some, ha, Option.map_some, Stub.noted]
  | string8 _ ih =>
      rcases gets_cons_some hgets with ⟨got, q, rest, happly, hrest, rfl⟩
      simp only [GetOp.apply, Option.map_eq_some_iff, Prod.mk.injEq, Prod.exists] at happly
      rcases happly with ⟨ptr, size, q', hget, rfl, rfl⟩
      -- The pointer is there, so the stub goes on.
      rcases ptr with _ | ptr
      · exact absurd rfl (hpresent _ List.mem_cons_self)
      rcases ih ⟨q'.data0 + UInt32.ofNat ptr, q'.buf.drop ptr⟩ size hrest fun got hgot =>
        hpresent got (List.mem_cons_of_mem _ hgot) with ⟨a, ha⟩
      refine ⟨a, ?_⟩
      simp only [Stub.run, hget, Option.bind_some, Option.map_some, ha, Stub.noted]

end Frameworks

end ZeusOS
