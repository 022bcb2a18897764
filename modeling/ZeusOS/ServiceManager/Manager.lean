import ZeusOS.Binder.Binder

/-!
# The Service Manager

`ServiceManager.cpp`: the list of `svcinfo` records, the handler that looks
names up and registers them, and the death callback.

A record is malloc'd with room for its name behind it and is never freed. The
allocator is a parameter that may refuse, and that never hands out memory
which is still in use; the addresses matter because the death cookie given to
the driver is the address of the record's `death` member.

A name in a message is a pointer into the message buffer, so it is carried as
the bytes readable from there on. `memcmp` and `memcpy` take their length from
elsewhere, and a length that runs past the readable bytes, or past the memory
of the record, is a fault.

Lengths are the point to watch. The length word is read as `unsigned`, stored
in the `int` of a `BinderRef`, compared as such, and widened to `size_t` for
the allocation, the copy and the search. They are kept as words here, with
`toInt` where the source compares them as signed.

## Main definitions

* `SvcInfo`: `struct svcinfo`.
* `Allocator`: `malloc`.
* `memEq`, `strlen`: The library functions the lookups use.
* `findSvc`: `find_svc`.
* `serviceManagerBinderDeath`: The death callback.
* `getService`, `addService`, `onTransact`: `BnServiceManager`.
* `services`: The service manager's process.
-/

namespace ZeusOS

namespace ServiceManager

open Foundation.Words Binder

/-- `struct svcinfo` and where it is. `name` holds the bytes stored behind the
    record so far, `room` is how many fit there. -/
structure SvcInfo where
  addr : UInt32
  handle : UInt32
  allowIsolated : UInt32
  len : UInt32
  name : List UInt8
  room : Nat
  deriving DecidableEq, Repr

/-- The cookie a record's death is announced with: the address of its `death`
    member, which follows `next` and `handle`. -/
def SvcInfo.cookie (si : SvcInfo) : UInt32 := si.addr + 8

/-- `malloc`: it may fail, and it never hands out memory that is in use. -/
structure Allocator where
  malloc : List UInt32 → UInt32 → Option UInt32
  fresh : ∀ inUse size addr, malloc inUse size = some addr → addr ∉ inUse

/-- Whether `memcmp` finds the first `n` bytes equal. -/
def memEq (n : Nat) (s1 s2 : List UInt8) : Option Bool :=
  if n ≤ s1.length ∧ n ≤ s2.length then some (s1.take n == s2.take n) else none

/-- `strlen`, which runs until it meets a zero. -/
def strlen : List UInt8 → Option Nat
  | [] => none
  | c :: rest => if c = 0 then some 0 else (strlen rest).map (· + 1)

/-- The search loop of `find_svc`. The `int` length is converted to `size_t`
    by the comparison, and again by `memcmp`. -/
def findSvc (name : List UInt8) (len : UInt32) : List SvcInfo → Option (Option SvcInfo)
  | [] => some none
  | si :: rest =>
    if len = si.len then
      (memEq len.toNat name si.name).bind fun eq =>
        if eq then some (some si) else findSvc name len rest
    else findSvc name len rest

/-- `serviceManagerbinderDeath`: the record is kept, only its handle goes. -/
def serviceManagerBinderDeath (si : SvcInfo) : List RefCommand × SvcInfo :=
  if si.handle ≠ 0 then ([.release si.handle], { si with handle := 0 }) else ([], si)

/-- Store a record's fields back where it is. -/
def update (svclist : List SvcInfo) (si : SvcInfo) : List SvcInfo :=
  svclist.map fun e => if e.addr = si.addr then si else e

def getService (name : List UInt8) (svclist : List SvcInfo) : Option UInt32 :=
  (strlen name).bind fun len =>
    (findSvc name (UInt32.ofNat len) svclist).map fun
      | some si => if si.handle ≠ 0 then si.handle else 0
      | none => 0

/-- `struct BinderRef`. The length is an `int`, kept as its word. -/
structure BinderRef where
  len : UInt32
  senderEuid : UInt32
  senderPid : UInt32
  allowIsolated : UInt32
  handle : UInt32
  deriving DecidableEq, Repr

/-- `sizeof(struct svcinfo)`. -/
def svcInfoSize : UInt32 := 24

/-- What is asked of `malloc` for a record and its name. -/
def allocSize (len : UInt32) : UInt32 := svcInfoSize + (len + 1) * 2

/-- `memcpy(si->name, name, len + 1)`. -/
def copyName (name : List UInt8) (si : SvcInfo) : Option SvcInfo :=
  let size := (si.len + 1).toNat
  if size ≤ si.room ∧ size ≤ name.length then some { si with name := name.take size } else none

/-- `si->name[len] = '\0'`. The byte before the name is the top byte of the
    record's own `len`. -/
def terminate (len : Int) (si : SvcInfo) : Option SvcInfo :=
  if 0 ≤ len then
    if len.toNat < si.room then some { si with name := si.name.set len.toNat 0 } else none
  else if len = -1 then some { si with len := si.len &&& 0x00ffffff }
  else none

/-- The record of a name that was not in the list. -/
def newSvc (addr : UInt32) (name : List UInt8) (ref : BinderRef) : Option SvcInfo :=
  (copyName name
    { addr
      handle := ref.handle
      allowIsolated := ref.allowIsolated
      len := ref.len
      name := []
      room := (allocSize ref.len).toNat - svcInfoSize.toNat }).bind (terminate (toInt ref.len))

/-- The commands that take a reference and ask to be told of the death. -/
def registration (handle : UInt32) (si : SvcInfo) : List RefCommand :=
  [.acquire handle, .requestDeathNotification handle si.cookie]

def addService (alloc : Allocator) (name : List UInt8) (ref : BinderRef)
    (svclist : List SvcInfo) : Option (Int32 × List RefCommand × List SvcInfo) :=
  if ref.handle = 0 ∨ toInt ref.len = 0 ∨ toInt ref.len > 127 then some (-1, [], svclist)
  else (findSvc name ref.len svclist).bind fun
    | some si =>
      -- An entry still bound goes through its own death first.
      let (writes, si) := if si.handle ≠ 0 then serviceManagerBinderDeath si else ([], si)
      let si := { si with handle := ref.handle }
      some (0, writes ++ registration ref.handle si, update svclist si)
    | none =>
      match alloc.malloc (svclist.map SvcInfo.addr) (allocSize ref.len) with
      | none => some (-1, [], svclist)
      | some addr => (newSvc addr name ref).map fun si =>
        (0, registration ref.handle si, si :: svclist)

/-- `PING_TRANSACTION`, packed from the characters `_PNG`. -/
def pingTransaction : UInt32 := bPackChars 0x5f 0x50 0x4e 0x47

def svcMgrGetService : UInt32 := 1
def svcMgrCheckService : UInt32 := 2
def svcMgrAddService : UInt32 := 3

/-- The fields of an `ADD_SERVICE` request, read in order. The name is the
    bytes from the pointer on; there is none if the string did not fit. -/
def readAddService (txn : Txn) (msg : Parcel) : Option (Option (List UInt8 × BinderRef)) :=
  msg.getString8.bind fun
    | ((none, _), _) => some none
    | ((some ptr, len), msg) =>
      let name := msg.buf.drop ptr
      msg.getRef.bind fun (handle, msg) =>
        msg.getUint32.map fun (isolated, _) =>
          some (name,
            { len
              senderEuid := txn.senderEuid
              senderPid := txn.senderPid
              allowIsolated := if isolated ≠ 0 then 1 else 0
              handle })

def onTransact (alloc : Allocator) : Handler (List SvcInfo) := fun txn msg reply svclist =>
  let refuse (reply : Parcel) : Handled (List SvcInfo) :=
    { status := -1, reply, writes := [], state := svclist }
  if txn.target ≠ 0 then some (refuse reply)
  else if txn.code = pingTransaction then
    some { status := 0, reply, writes := [], state := svclist }
  else msg.getUint32.bind fun (strictPolicy, msg) =>
    if strictPolicy ≠ 0 then (reply.putUint32 0xffffffff).map refuse
    else if txn.code = svcMgrGetService ∨ txn.code = svcMgrCheckService then
      msg.getString8.bind fun
        | ((none, _), _) => some (refuse reply)
        | ((some name, _), msg) =>
          (getService (msg.buf.drop name) svclist).bind fun handle =>
            (if handle ≠ 0 then reply.putRef handle else reply.putUint32 0).map fun reply =>
              { status := 0, reply, writes := [], state := svclist }
    else if txn.code = svcMgrAddService then
      (readAddService txn msg).bind fun
        | none => some (refuse reply)
        | some (name, ref) =>
          (addService alloc name ref svclist).bind fun (res, writes, svclist) =>
            if res ≠ 0 then some { status := -1, reply, writes, state := svclist }
            else (reply.putUint32 0).map fun reply => { status := 0, reply, writes, state := svclist }
    else some (refuse reply)

/-- The callback a cookie leads to. A cookie that is no record's is a wild
    pointer. -/
def binderDeath (cookie : UInt32) (svclist : List SvcInfo) :
    Option (List RefCommand × List SvcInfo) :=
  (svclist.find? fun si => si.cookie = cookie).map fun si =>
    let (writes, si) := serviceManagerBinderDeath si
    (writes, update svclist si)

/-- The service manager's process has no objects but the service manager. -/
def services (alloc : Allocator) (io : IoData) : Services (List SvcInfo) :=
  { newIoData := fun _ => io
    bnBinder := fun _ _ _ _ _ => none
    bnServiceManager := onTransact alloc
    binderDeath := binderDeath }

end ServiceManager

end ZeusOS
