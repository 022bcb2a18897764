import ZeusOS.Binder.Inspect
import ZeusOS.Binder.Writing
import ZeusOS.ServiceManager.Manager

/-!
# Proxies

The client side of the services: `BpServiceManager`, `BpInputManager` and
`BpTestService`. Their methods have one body. They write a request, call, read
one value from the reply, and give the reply's buffer back; a call that fails
ends the method with minus one before anything is read.

`Proxy` holds what the methods differ in, and `Proxy.call` is the body.

## Main definitions

* `Proxy`, `Proxy.call`: A proxy method and its body.
* `BpServiceManager.getService` and the others: The methods.
-/

namespace ZeusOS

namespace Frameworks

open Binder ServiceManager

/-- What a proxy method consists of: the values it writes, the code and flags
    it calls with, the value it reads from the reply, and the references it
    takes on it. -/
structure Proxy where
  request : List PutOp
  code : UInt32
  flags : UInt32
  get : Parcel → Option (UInt32 × Parcel)
  after : UInt32 → List RefCommand
  same : ∀ p w p', get p = some (w, p') → SameBuffer p p'

/-- How a method stands once the driver's answers are used up. -/
inductive ProxyResult where
  | waiting
  | returned (value : Int32)
  deriving DecidableEq, Repr

variable {σ : Type}

/-- The body of a proxy method, for a proxy of the given handle. -/
def Proxy.call (P : Proxy) (S : Services σ) (mTargetHandle : UInt32) (msgIo replyIo : IoData)
    (answers : List Answer) (s : σ) : Option (List Event × ProxyResult × σ) :=
  (puts P.request (Parcel.new msgIo)).bind fun msg =>
    (binderCall S msg (Parcel.new replyIo) mTargetHandle P.code P.flags answers s).bind fun
      | (evs, .waiting, s) => some (evs, .waiting, s)
      | (evs, .returned res reply, s) =>
        if res ≠ 0 then some (evs, .returned (-1), s)
        else (P.get reply).map fun (value, reply') =>
          (evs ++ .replyRead reply.data0 :: refEvents (P.after value) ++ binderDone reply',
            .returned value.toInt32, s)

/-- A method that reads a status word. -/
def statusProxy (request : List PutOp) (code flags : UInt32) : Proxy :=
  { request
    code
    flags
    get := Parcel.getUint32
    after := fun _ => []
    same := fun _ _ _ h => getUint32_same h }

namespace BpServiceManager

/-- The handle that comes back is acquired before the buffer it came in is
    given back. -/
def getService (name : Option CString) : Proxy :=
  { request := [.uint32 0, .string8 name]
    code := svcMgrCheckService
    flags := 0
    get := Parcel.getRef
    after := fun handle => if handle ≠ 0 then [.acquire handle] else []
    same := fun _ _ _ h => getRef_same h }

def addService (name : Option CString) (ptr : UInt32) : Proxy :=
  statusProxy [.uint32 0, .string8 name, .obj ptr] svcMgrAddService 0

end BpServiceManager

def inputManagerAddListener : UInt32 := 1
def inputManagerDelListener : UInt32 := 2

namespace BpInputManager

def addListener (iType iUid iFd : UInt32) (pcName : Option CString) (this : UInt32) : Proxy :=
  statusProxy [.uint32 0, .uint32 iType, .uint32 iUid, .fd iFd, .string8 pcName, .obj this]
    inputManagerAddListener tfAcceptFds

def delListener (iUid : UInt32) : Proxy :=
  statusProxy [.uint32 0, .uint32 iUid] inputManagerDelListener 0

end BpInputManager

/-- `HELLO_SVR_CMD_SAYHELLO_TO`. -/
def helloSvrCmdSayHelloTo : UInt32 := 1

namespace BpTestService

def hello (str : Option CString) : Proxy :=
  statusProxy [.uint32 0, .string8 str] helloSvrCmdSayHelloTo 0

end BpTestService

end Frameworks

end ZeusOS
