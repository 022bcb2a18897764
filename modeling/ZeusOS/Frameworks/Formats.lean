import ZeusOS.Frameworks.Stubs
import ZeusOS.ServiceManager.Registry

/-!
# Proxies and Stubs

Each request has two descriptions: the proxy method that writes it and the case
of `onTransact` that takes it apart. They were written apart, and a getter that
fails yields zero, so where they differ nothing breaks.

They differ in two places. The stub of `addService` asks for one word more than
its proxy writes, and gets the zero that stands for a failed read. And a string
too long for the wire arrives as a string that is there and is not the one sent.
In every other request the stub gets what the proxy wrote, and nothing is left.

## Main definitions

* `ProxyCall`, `ProxyCall.proxy`: The methods with their arguments.
* `ProxyCall.received`: What the stub gets from the message.
* `Understood`: The two sides agree on a message.
* `ProxyCall.Agrees`: The requests whose two sides agree.

## Theorems

* `received_eq`: The calls the stub makes on a request.
* `addService_overflows`: The stub of `addService` reads past the end.
* `understood_iff`: The two sides agree on exactly these requests.
-/

namespace ZeusOS

namespace Frameworks

open Foundation.Words Binder ServiceManager
open InputManager (BnInputManager)

/-- A call of a proxy method. The strings are there. -/
inductive ProxyCall where
  | getService (name : CString)
  | addService (name : CString) (ptr : UInt32)
  | addListener (iType iUid iFd : UInt32) (pcName : CString) (this : UInt32)
  | delListener (iUid : UInt32)
  | hello (str : CString)

/-- What the servers have when a request comes in. -/
structure Servers where
  alloc : Allocator
  dup : UInt32 → Int32
  reply : Parcel
  svclist : List SvcInfo
  inputManager : BnInputManager
  testService : BnTestService

namespace ProxyCall

def proxy : ProxyCall → Proxy
  | getService name => BpServiceManager.getService (some name)
  | addService name ptr => BpServiceManager.addService (some name) ptr
  | addListener iType iUid iFd pcName this =>
    BpInputManager.addListener iType iUid iFd (some pcName) this
  | delListener iUid => BpInputManager.delListener iUid
  | hello str => BpTestService.hello (some str)

/-- The calls that go to handle zero. -/
def toManager : ProxyCall → Bool
  | getService _ => true
  | addService _ _ => true
  | _ => false

/-- What the stub gets from the message, and the message after it. -/
def received (call : ProxyCall) (srv : Servers) (txn : Txn) (msg : Parcel) :
    Option (List Got × Parcel) :=
  match call with
  | getService _ => ((managerStub srv.alloc txn srv.reply srv.svclist).run msg).map Prod.snd
  | addService _ _ => ((managerStub srv.alloc txn srv.reply srv.svclist).run msg).map Prod.snd
  | addListener _ _ _ _ _ =>
    ((inputStub srv.alloc srv.dup txn srv.reply srv.inputManager).run msg).map Prod.snd
  | delListener _ =>
    ((inputStub srv.alloc srv.dup txn srv.reply srv.inputManager).run msg).map Prod.snd
  | hello _ => ((testStub txn srv.reply srv.testService).run msg).map Prod.snd

/-- The calls of its case, behind the policy word. -/
def reads : ProxyCall → List GetOp
  | getService _ => [.string8]
  | addService _ _ => [.string8, .ref, .uint32]
  | addListener _ _ _ _ _ => [.uint32, .uint32, .fd, .string8, .ref]
  | delListener _ => [.uint32]
  | hello _ => [.string8]

/-- The request has the same form on both sides, and its string, if it has one,
    survives the wire. -/
def Agrees : ProxyCall → Prop
  | getService name => name.chars.length < maxBioSize.toNat
  | addService _ _ => False
  | addListener _ _ _ pcName _ => pcName.chars.length < maxBioSize.toNat
  | delListener _ => True
  | hello str => str.chars.length < maxBioSize.toNat

instance (call : ProxyCall) : Decidable call.Agrees :=
  match call with
  | getService _ => inferInstanceAs (Decidable (_ < _))
  | addService _ _ => inferInstanceAs (Decidable False)
  | addListener _ _ _ _ _ => inferInstanceAs (Decidable (_ < _))
  | delListener _ => inferInstanceAs (Decidable True)
  | hello _ => inferInstanceAs (Decidable (_ < _))

end ProxyCall

/-- The stub gets the values that the proxy wrote, as the driver delivers them,
    none of its calls fails, and it has been through the whole message. -/
def Understood (call : ProxyCall) (srv : Servers) (rewrite : Nat → UInt32 → UInt32) (txn : Txn)
    (msg : Parcel) : Prop :=
  ∃ msg', call.received srv txn msg = some (expectedFrom rewrite 0 call.proxy.request, msg') ∧
    msg'.flags.overflow = false ∧ msg'.dataAvail = 0

/-- Behind a policy word of zero a stub makes the calls of its case. -/
theorem strict_received {α : Type} {refused : α} {k : Stub α} {ops : List GetOp} (hk : k.Asks ops)
    {msg msg₁ msg' : Parcel} {gots : List Got} (hpolicy : msg.getUint32 = some (0, msg₁))
    (hgets : gets ops msg₁ = some (gots, msg')) (hpresent : ∀ got ∈ gots, got.Present) :
    ((Stub.strict refused k).run msg).map Prod.snd = some (.word 0 :: gots, msg') := by
  rcases run_of_asks hk hgets hpresent with ⟨a, hrun⟩
  have hzero : ¬ (0 : UInt32) ≠ 0 := by decide
  simp only [Stub.strict, Stub.run, hpolicy, Option.bind_some, if_neg hzero, hrun, Option.map_some,
    Stub.noted]

variable {call : ProxyCall} {srv : Servers} {txn : Txn} {msg msg₁ msg' : Parcel} {gots : List Got}

/-- The calls the stub makes on a request. -/
theorem received_eq (srv : Servers) (hcode : txn.code = call.proxy.code)
    (htarget : call.toManager = true → txn.target = 0) (hpolicy : msg.getUint32 = some (0, msg₁))
    (hgets : gets call.reads msg₁ = some (gots, msg')) (hpresent : ∀ got ∈ gots, got.Present) :
    call.received srv txn msg = some (.word 0 :: gots, msg') := by
  cases call with
  | getService name =>
      have hcode : txn.code = svcMgrCheckService := hcode
      have hnot : ¬ txn.target ≠ 0 := not_not.mpr (htarget rfl)
      have hping : txn.code ≠ pingTransaction := by
        rw [hcode]
        decide
      rw [ProxyCall.received, managerStub, if_neg hnot, if_neg hping, if_pos (Or.inr hcode)]
      exact strict_received (.string8 fun _ _ => .done _) hpolicy hgets hpresent
  | addService name ptr =>
      have hcode : txn.code = svcMgrAddService := hcode
      have hnot : ¬ txn.target ≠ 0 := not_not.mpr (htarget rfl)
      have hping : txn.code ≠ pingTransaction := by
        rw [hcode]
        decide
      have hget : ¬ (txn.code = svcMgrGetService ∨ txn.code = svcMgrCheckService) := by
        rw [hcode]
        decide
      rw [ProxyCall.received, managerStub, if_neg hnot, if_neg hping, if_neg hget, if_pos hcode]
      exact strict_received (.string8 fun _ _ => .ref fun _ => .uint32 fun _ => .done _) hpolicy
        hgets hpresent
  | addListener iType iUid iFd pcName this =>
      have hcode : txn.code = inputManagerAddListener := hcode
      rw [ProxyCall.received, inputStub, if_pos hcode]
      exact strict_received (.uint32 fun _ => .uint32 fun _ => .fd fun _ => .string8 fun _ _ =>
        .ref fun _ => .done _) hpolicy hgets hpresent
  | delListener iUid =>
      have hcode : txn.code = inputManagerDelListener := hcode
      have hadd : txn.code ≠ inputManagerAddListener := by
        rw [hcode]
        decide
      rw [ProxyCall.received, inputStub, if_neg hadd, if_pos hcode]
      exact strict_received (.uint32 fun _ => .done _) hpolicy hgets hpresent
  | hello str =>
      have hcode : txn.code = helloSvrCmdSayHelloTo := hcode
      rw [ProxyCall.received, testStub, if_pos hcode]
      exact strict_received (.string8 fun _ _ => .done _) hpolicy hgets hpresent

variable {io : IoData} {sent : Parcel} {rewrite : Nat → UInt32 → UInt32} {recv : List UInt8}
  {mem : Mapping}

/-- Where a message begins with a policy word of zero, the matching calls of the
    others come behind that of the word. -/
theorem request_arrives {ops : List PutOp}
    (hputs : puts (.uint32 0 :: ops) (Parcel.new io) = some sent)
    (hclear : sent.flags.overflow = false)
    (hrecv : Delivered sent.offsets rewrite sent.payload recv)
    (htxn : Carries mem txn recv sent.offsets) (hmem : (mem.bytes txn.buffer).length < 2 ^ 32)
    (hgiven : ∀ op ∈ PutOp.uint32 0 :: ops, op.Given) :
    ∃ msg₁ gots msg', (Parcel.bioInitFromTxn mem txn).getUint32 = some (0, msg₁) ∧
      gets (ops.map PutOp.getter) msg₁ = some (gots, msg') ∧
      Reader recv sent.offsets recv.length msg' ∧ (∀ got ∈ gots, got.Present) ∧
      (Got.word 0 :: gots = expectedFrom rewrite 0 (.uint32 0 :: ops) ↔
        ∀ op ∈ PutOp.uint32 0 :: ops, op.Proper) := by
  have hbound := payload_length_le sent (writer_of_puts hputs)
  have hlength := hrecv.length
  have hR := reader_init mem txn recv sent.offsets htxn (by omega)
  have hlayout := (layout_of_puts io rewrite _ sent hputs hclear).2.2 recv hrecv
  rcases gets_arrived hR hmem _ hgiven hlayout with ⟨_, all, msg', hgets, hR', _, hpresent, hiff⟩
  -- The word stands at the beginning, so it is what the first call yields.
  rcases getUint32_reader hR 0 (layout_head hlayout).1.1 with ⟨msg₁, hpolicy, _⟩
  rcases gets_cons_some hgets with ⟨got, q, gots, hfirst, hrest, rfl⟩
  simp only [PutOp.getter, GetOp.apply, hpolicy, Option.map_some, Option.some.injEq,
    Prod.mk.injEq] at hfirst
  rcases hfirst with ⟨rfl, rfl⟩
  rw [hlength]
  exact ⟨msg₁, gots, msg', hpolicy, hrest, hR',
    fun got hgot => hpresent got (List.mem_cons_of_mem _ hgot), hiff⟩

/-- A string survives the wire below the limit. -/
theorem string8_proper (str : CString) :
    (PutOp.string8 (some str)).Proper ↔ str.chars.length < maxBioSize.toNat := by
  constructor
  · rintro ⟨s, hs, hlen⟩
    cases hs
    exact hlen
  · intro hlen
    exact ⟨str, rfl, hlen⟩

theorem request_given (call : ProxyCall) : ∀ op ∈ call.proxy.request, op.Given := by
  cases call
  all_goals simp only [ProxyCall.proxy, BpServiceManager.getService, BpServiceManager.addService,
    BpInputManager.addListener, BpInputManager.delListener, BpTestService.hello, statusProxy,
    List.mem_cons, List.not_mem_nil, or_false, forall_eq_or_imp, forall_eq, PutOp.Given,
    PutOp.Proper, ne_eq, reduceCtorEq, not_false_eq_true, and_self]

/-- Apart from `addService`, the sides agree where the values survive. -/
theorem request_proper {call : ProxyCall} (hcall : ∀ name ptr, call ≠ .addService name ptr) :
    (∀ op ∈ call.proxy.request, op.Proper) ↔ call.Agrees := by
  cases call with
  | addService name ptr => exact absurd rfl (hcall name ptr)
  | getService str | hello str =>
      simp only [ProxyCall.proxy, BpServiceManager.getService, BpTestService.hello, statusProxy,
        List.mem_cons, List.not_mem_nil, or_false, forall_eq_or_imp, forall_eq, string8_proper,
        ProxyCall.Agrees]
      exact and_iff_right trivial
  | addListener iType iUid iFd pcName this =>
      simp only [ProxyCall.proxy, BpInputManager.addListener, statusProxy,
        List.mem_cons, List.not_mem_nil, or_false, forall_eq_or_imp, forall_eq, string8_proper,
        ProxyCall.Agrees]
      simp only [PutOp.Proper, true_and, and_true]
  | delListener iUid =>
      simp only [ProxyCall.proxy, BpInputManager.delListener, statusProxy,
        List.mem_cons, List.not_mem_nil, or_false, forall_eq_or_imp, forall_eq, PutOp.Proper,
        ProxyCall.Agrees, and_self]

/-- What the proxy writes behind the policy word is what the stub asks for, but
    for a word that the stub of `addService` asks for in addition. -/
theorem request_reads (call : ProxyCall) : ∃ ops, call.proxy.request = .uint32 0 :: ops ∧
    call.reads = ops.map PutOp.getter ++
      match call with
      | .addService _ _ => [.uint32]
      | _ => [] := by
  cases call with
  | getService | addService | addListener | delListener | hello => exact ⟨_, rfl, rfl⟩

/-- The stub of `addService` reads a word behind the end of every request. -/
theorem addService_overflows {name : CString} {ptr : UInt32}
    (hputs : puts (ProxyCall.addService name ptr).proxy.request (Parcel.new io) = some sent)
    (hclear : sent.flags.overflow = false)
    (hrecv : Delivered sent.offsets rewrite sent.payload recv)
    (htxn : Carries mem txn recv sent.offsets) (hmem : (mem.bytes txn.buffer).length < 2 ^ 32)
    (hcode : txn.code = svcMgrAddService) (htarget : txn.target = 0) :
    ∃ gots msg', (ProxyCall.addService name ptr).received srv txn (Parcel.bioInitFromTxn mem txn)
      = some (gots, msg') ∧ msg'.flags.overflow = true := by
  rcases request_arrives hputs hclear hrecv htxn hmem (request_given (.addService name ptr)) with
    ⟨msg₁, gots, q, hpolicy, hgets, hRq, hpresent, _⟩
  rcases getUint32_end hRq with ⟨msg', hword, hover⟩
  -- The proxy's values are read to the end, and then comes one call more.
  have hreads : gets (ProxyCall.addService name ptr).reads msg₁ = some (gots ++ [.word 0], msg') := by
    have hsplit : (ProxyCall.addService name ptr).reads = [.string8, .ref] ++ [.uint32] := rfl
    rw [hsplit, gets_snoc, show gets [.string8, .ref] msg₁ = some (gots, q) from hgets]
    simp only [Option.bind_some, GetOp.apply, hword, Option.map_some]
  refine ⟨_, msg', received_eq srv hcode (fun _ => htarget) hpolicy hreads ?_, hover⟩
  intro got hgot
  rcases List.mem_append.mp hgot with hgot | hgot
  · exact hpresent got hgot
  · rw [List.mem_singleton.mp hgot]
    trivial

/-- Of every request that is written without overflow and delivered, the stub
    gets what the proxy wrote exactly if it is not `addService`'s and has no
    string that is too long. -/
theorem understood_iff (call : ProxyCall) (srv : Servers) (io : IoData) (sent : Parcel)
    (rewrite : Nat → UInt32 → UInt32) (recv : List UInt8) (mem : Mapping) (txn : Txn)
    (hputs : puts call.proxy.request (Parcel.new io) = some sent)
    (hclear : sent.flags.overflow = false)
    (hrecv : Delivered sent.offsets rewrite sent.payload recv)
    (htxn : Carries mem txn recv sent.offsets) (hmem : (mem.bytes txn.buffer).length < 2 ^ 32)
    (hcode : txn.code = call.proxy.code) (htarget : call.toManager = true → txn.target = 0) :
    Understood call srv rewrite txn (Parcel.bioInitFromTxn mem txn) ↔ call.Agrees := by
  by_cases hcall : ∃ name ptr, call = .addService name ptr
  · rcases hcall with ⟨name, ptr, rfl⟩
    refine iff_of_false ?_ fun hagrees => hagrees
    rintro ⟨msg', hgot, hno, _⟩
    rcases addService_overflows hputs hclear hrecv htxn hmem hcode (htarget rfl) with
      ⟨gots, q, hgot', hover⟩
    rw [hgot, Option.some.injEq, Prod.mk.injEq] at hgot'
    rw [← hgot'.2, hno] at hover
    exact Bool.false_ne_true hover
  · simp only [not_exists] at hcall
    rcases request_reads call with ⟨ops, hrequest, hreads⟩
    have hasked : call.reads = ops.map PutOp.getter := by
      rw [hreads]
      cases call with
      | addService name ptr => exact absurd rfl (hcall name ptr)
      | getService | addListener | delListener | hello => exact List.append_nil _
    rw [hrequest] at hputs
    rcases request_arrives hputs hclear hrecv htxn hmem (hrequest ▸ request_given call) with
      ⟨msg₁, gots, msg', hpolicy, hgets, hR', hpresent, hiff⟩
    rw [← hasked] at hgets
    have hreceived := received_eq srv hcode htarget hpolicy hgets hpresent
    rw [← request_proper hcall, hrequest, ← hiff]
    constructor
    · rintro ⟨q, hgot, _, _⟩
      rw [hreceived, hrequest, Option.some.injEq, Prod.mk.injEq] at hgot
      exact hgot.1
    · intro hgots
      refine ⟨msg', ?_, hR'.clear, ?_⟩
      · rw [hreceived, hgots, hrequest]
      · rw [hR'.room, Int.sub_self]

def sampleServers : Servers :=
  { alloc := blocks, dup := fun _ => -1, reply := Parcel.new sampleIo, svclist := [],
    inputManager := { mListenerDescList := [], heap := [], log := [] },
    testService := { printed := [] } }

/-- A greeting of one letter. -/
def helloBytes : List UInt8 := [0, 0, 0, 0, 1, 0, 0, 0, 0x61, 0, 0, 0]

def helloMemory : Mapping := { bytes := fun _ => helloBytes, words := fun _ => [] }

def helloTxn : Txn :=
  { target := 0x9000, cookie := 0, code := helloSvrCmdSayHelloTo, flags := 0, senderPid := 1,
    senderEuid := 0, dataSize := 12, offsetsSize := 0, buffer := 0x4000, offsets := 0x5000 }

theorem understood_iff_hello :
    Understood (.hello sampleName) sampleServers (fun _ v => v) helloTxn
      (Parcel.bioInitFromTxn helloMemory helloTxn) := by
  have hrun : (puts (ProxyCall.hello sampleName).proxy.request (Parcel.new sampleIo)).map
      (fun p => (p.flags.overflow, p.offsets, p.payload)) = some (false, [], helloBytes) := by
    decide +kernel
  rcases Option.map_eq_some_iff.mp hrun with ⟨sent, hputs, hfacts⟩
  simp only [Prod.mk.injEq] at hfacts
  rcases hfacts with ⟨hclear, hoffs, hpayload⟩
  have hrecv : Delivered sent.offsets (fun _ v => v) sent.payload helloBytes := by
    rw [hoffs, hpayload]
    exact delivered_nil _ _
  have htxn : Carries helloMemory helloTxn helloBytes sent.offsets := by
    rw [hoffs]
    exact ⟨List.prefix_refl _, List.prefix_refl _, rfl, rfl⟩
  exact (understood_iff (.hello sampleName) sampleServers sampleIo sent (fun _ v => v) helloBytes
    helloMemory helloTxn hputs hclear hrecv htxn (by decide) rfl (by decide)).mpr (by decide)

/-- The stub of `addService` takes a fourth value, which nobody wrote, behind
    the three of a registration of one letter for handle three. -/
theorem addService_misread : ∃ sent msg',
    puts (ProxyCall.addService sampleName 9).proxy.request (Parcel.new sampleIo) = some sent ∧
      sent.flags.overflow = false ∧
      Delivered sent.offsets (fun _ _ => 3) sent.payload (registrationBytes 1 [0x61, 0, 0, 0] 3) ∧
      Carries (registrationMemory 1 [0x61, 0, 0, 0] 3) (registrationTxn [0x61, 0, 0, 0])
        (registrationBytes 1 [0x61, 0, 0, 0] 3) sent.offsets ∧
      (ProxyCall.addService sampleName 9).received sampleServers (registrationTxn [0x61, 0, 0, 0])
          (Parcel.bioInitFromTxn (registrationMemory 1 [0x61, 0, 0, 0] 3)
            (registrationTxn [0x61, 0, 0, 0]))
        = some ([.word 0, .string8 (some [0x61, 0]) 1, .word 3, .word 0], msg') ∧
      msg'.flags.overflow = true ∧
      ¬ Understood (.addService sampleName 9) sampleServers (fun _ _ => 3)
        (registrationTxn [0x61, 0, 0, 0])
        (Parcel.bioInitFromTxn (registrationMemory 1 [0x61, 0, 0, 0] 3)
          (registrationTxn [0x61, 0, 0, 0])) := by
  have hrun : (puts (ProxyCall.addService sampleName 9).proxy.request (Parcel.new sampleIo)).map
      (fun p => (p.flags.overflow, p.offsets, (le32 binderTypeBinder).isPrefixOf (p.payload.drop 12),
        p.payload.length, deliverObject 3 p.payload 12))
      = some (false, [12], true, 28, registrationBytes 1 [0x61, 0, 0, 0] 3) := by decide +kernel
  have hgot : ((ProxyCall.addService sampleName 9).received sampleServers
      (registrationTxn [0x61, 0, 0, 0]) (Parcel.bioInitFromTxn
        (registrationMemory 1 [0x61, 0, 0, 0] 3) (registrationTxn [0x61, 0, 0, 0]))).map
      (fun res => (res.1, res.2.flags.overflow))
      = some ([.word 0, .string8 (some [0x61, 0]) 1, .word 3, .word 0], true) := by decide +kernel
  rcases Option.map_eq_some_iff.mp hrun with ⟨sent, hputs, hfacts⟩
  simp only [Prod.mk.injEq, List.isPrefixOf_iff_prefix] at hfacts
  rcases hfacts with ⟨hclear, hoffs, hbinder, hlen, hrecv⟩
  have hdelivered := delivered_binder 3 12 sent.payload (by rw [hlen]; decide) hbinder
  rw [hrecv, ← hoffs] at hdelivered
  rcases Option.map_eq_some_iff.mp hgot with ⟨⟨gots, msg'⟩, hreceived, hres⟩
  simp only [Prod.mk.injEq] at hres
  rcases hres with ⟨rfl, hover⟩
  refine ⟨sent, msg', hputs, hclear, hdelivered, ?_, hreceived, hover, ?_⟩
  · rw [hoffs]
    exact ⟨List.prefix_refl _, List.prefix_refl _, rfl, rfl⟩
  · rintro ⟨q, hunderstood, hno, _⟩
    rw [hreceived, Option.some.injEq, Prod.mk.injEq] at hunderstood
    rw [← hunderstood.2, hover] at hno
    cases hno

end Frameworks

end ZeusOS
