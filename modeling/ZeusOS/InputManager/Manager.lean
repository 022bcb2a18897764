import ZeusOS.Frameworks.Proxies
import ZeusOS.Input.EventDevice

/-!
# The Input Manager

`InputManager.cpp`: the list of listeners, the handler that adds and deletes
them, the death callback, and the dispatch of an event.

A listener's record is malloc'd, and a second block with it, which holds what a
death notice needs; the address of that block is the cookie. Neither
allocation is checked, so where there is no memory the next store is a fault.
`heap` lists the blocks in use, and the allocator hands out none of them.

The list is taken as a sequence of records. `delListener` erases the node its
iterator is at and then goes through the iterator three times more: for the
handle to release, for the death block, and for the record itself. What it reads
there is what a freed node holds, which may be anything, and the process may end
with it. Here the record is still at hand, as if the node held it yet; whatever
is said of a deletion from now on is said under that idealization.

`dup` is the system's, and so a parameter: what it answers for a descriptor,
minus one if it refuses. No function of this file closes a descriptor. What the
manager does to its descriptors and its memory is logged in order, so that a
leak or a double free can be told from the log.

## Main definitions

* `ListenerDesc`: `struct ListenerDesc`.
* `BnInputManager`: The manager's state, and the log of its deeds.
* `addListener`, `delListener`, `dispatchEvent`: The methods.
* `inputBinderDeath`: The death callback.
* `readAddListener`, `onTransact`: The handler.
* `services`: The input manager's process.
-/

namespace ZeusOS

namespace InputManager

open Foundation.Words Binder
open ServiceManager (Allocator)
open Frameworks (inputManagerAddListener inputManagerDelListener)
open Input (CookEvent)

/-- `struct ListenerDesc` and where it is. The name is a pointer into the
    message it came with. -/
structure ListenerDesc where
  addr : UInt32
  iType : UInt32
  iUid : UInt32
  iFd : Int32
  pcName : Option UInt32
  iHandle : UInt32
  death : UInt32
  deriving DecidableEq, Repr

/-- What the manager does besides talking to the driver. -/
inductive Deed where
  /-- `dup` was called for a descriptor, and this was the answer. -/
  | dup (fd : UInt32) (iFd : Int32)
  /-- A record was put into the list. -/
  | pushed (desc : ListenerDesc)
  /-- A record and its death block were freed. -/
  | freed (desc : ListenerDesc)
  deriving DecidableEq, Repr

/-- The list, the blocks in use, and the deeds so far. -/
structure BnInputManager where
  mListenerDescList : List ListenerDesc
  heap : List UInt32
  log : List Deed
  deriving DecidableEq, Repr

/-- `std::list::remove` takes out every element equal to the pointer. -/
def remove (desc : ListenerDesc) (l : List ListenerDesc) : List ListenerDesc :=
  l.filter fun e => e.addr ≠ desc.addr

/-- A record leaves the list, its reference is given back, its death block and
    then itself are freed. -/
def BnInputManager.discard (m : BnInputManager) (desc : ListenerDesc) :
    List RefCommand × BnInputManager :=
  ([.release desc.iHandle],
    { mListenerDescList := remove desc m.mListenerDescList
      heap := (m.heap.erase desc.death).erase desc.addr
      log := m.log ++ [.freed desc] })

/-- `inputBinderDeath`. -/
def inputBinderDeath (desc : ListenerDesc) (m : BnInputManager) :
    List RefCommand × BnInputManager :=
  if desc.iHandle ≠ 0 then m.discard desc else ([], m)

def addListener (desc : ListenerDesc) (m : BnInputManager) :
    Int32 × List RefCommand × BnInputManager :=
  -- A record without a handle is forgotten, with its memory and its descriptor.
  if desc.iHandle = 0 then (-1, [], m)
  else (0, [.acquire desc.iHandle, .requestDeathNotification desc.iHandle desc.death],
    { m with
      mListenerDescList := m.mListenerDescList ++ [desc]
      log := m.log ++ [.pushed desc] })

/-- The loop of `delListener` up to the first match. The source reads the record
    three times more through the node that `remove` has freed; here it is the
    record that was found. -/
def delListener (iUid : UInt32) (m : BnInputManager) : Int32 × List RefCommand × BnInputManager :=
  match m.mListenerDescList.find? fun desc => desc.iUid = iUid with
  | some desc => (0, m.discard desc)
  | none => (-1, [], m)

/-- `dispatchEvent`: the listeners the event is written to, each through its
    own descriptor. -/
def dispatchEvent (cookEvent : CookEvent) (l : List ListenerDesc) :
    List (ListenerDesc × CookEvent) :=
  (l.filter fun desc => cookEvent.iType.toUInt32 &&& desc.iType ≠ 0).map fun desc =>
    (desc, cookEvent)

/-- `sizeof(struct ListenerDesc)` and `sizeof(struct BinderDeath)`. -/
def listenerDescSize : UInt32 := 24
def binderDeathSize : UInt32 := 8

/-- What an `ADD_LISTENER` request carries. -/
structure AddRequest where
  iType : UInt32
  iUid : UInt32
  fd : UInt32
  pcName : Option UInt32
  iHandle : UInt32
  deriving DecidableEq, Repr

/-- The fields of an `ADD_LISTENER` request, read in order. -/
def readAddListener (msg : Parcel) : Option AddRequest :=
  msg.getUint32.bind fun (iType, msg) =>
    msg.getUint32.bind fun (iUid, msg) =>
      msg.getFd.bind fun (fd, msg) =>
        msg.getString8.bind fun ((ptr, _), msg) =>
          msg.getRef.map fun (iHandle, msg) =>
            { iType
              iUid
              fd
              pcName := ptr.map fun ptr => msg.data0 + UInt32.ofNat ptr
              iHandle }

/-- The record made of a request. -/
def AddRequest.desc (req : AddRequest) (dup : UInt32 → Int32) (addr death : UInt32) :
    ListenerDesc :=
  { addr
    iType := req.iType
    iUid := req.iUid
    iFd := dup req.fd
    pcName := req.pcName
    iHandle := req.iHandle
    death }

/-- The two blocks of a request are in use, and its descriptor was duplicated. -/
def BnInputManager.prepare (m : BnInputManager) (dup : UInt32 → Int32) (req : AddRequest)
    (addr death : UInt32) : BnInputManager :=
  { m with
    heap := death :: addr :: m.heap
    log := m.log ++ [.dup req.fd (dup req.fd)] }

/-- A case of the `switch` that ends with a status word in the reply. -/
def answered (reply : Parcel) : Int32 × List RefCommand × BnInputManager →
    Option (Handled BnInputManager)
  | (iRet, writes, state) =>
    (reply.putUint32 iRet.toUInt32).map fun reply => { status := 0, reply, writes, state }

def onTransact (alloc : Allocator) (dup : UInt32 → Int32) : Handler BnInputManager :=
  fun txn msg reply m =>
    let refuse (reply : Parcel) : Handled BnInputManager :=
      { status := -1, reply, writes := [], state := m }
    msg.getUint32.bind fun (strictPolicy, msg) =>
      if strictPolicy ≠ 0 then (reply.putUint32 0xffffffff).map refuse
      else if txn.code = inputManagerAddListener then
        (alloc.malloc m.heap listenerDescSize).bind fun addr =>
          (readAddListener msg).bind fun req =>
            (alloc.malloc (addr :: m.heap) binderDeathSize).bind fun death =>
              answered reply (addListener (req.desc dup addr death) (m.prepare dup req addr death))
      else if txn.code = inputManagerDelListener then
        msg.getUint32.bind fun (iUid, _) => answered reply (delListener iUid m)
      else some (refuse reply)

/-- The callback a cookie leads to. A cookie that is no listener's death block
    leads into memory that has been freed. -/
def binderDeath (cookie : UInt32) (m : BnInputManager) :
    Option (List RefCommand × BnInputManager) :=
  (m.mListenerDescList.find? fun desc => desc.death = cookie).map fun desc =>
    inputBinderDeath desc m

/-- The input manager's process has one object, the input manager. -/
def services (alloc : Allocator) (dup : UInt32 → Int32) (io : IoData) (this : UInt32) :
    Services BnInputManager :=
  { newIoData := fun _ => io
    bnBinder := fun ptr =>
      if ptr = this then onTransact alloc dup else fun _ _ _ _ => none
    bnServiceManager := fun _ _ _ _ => none
    binderDeath := binderDeath }

end InputManager

end ZeusOS
