import ZeusOS.Foundation.Runs
import ZeusOS.Frameworks.Exchange
import ZeusOS.ServiceManager.Lookup

/-!
# The Service Directory

The service manager from its clients' side: calls of `addService` and
`getService` through the proxy, and the deaths of services in between. Seen
like this it is a finite map from names to handles.

What the map is for is said by `Directory` alone. A name of one to 127
characters can be bound, and binding it again replaces the handle; the death of
its service leaves the name with no handle; a lookup answers the handle, or
zero. A name that does not fit into a parcel cannot be asked for.

The code does this for every name shorter than `MAX_BIO_SIZE`. A longer name is
sent as if there were none, the server takes the length word for minus one, and
answers that it has been registered.

## Main definitions

* `Directory`, `Directory.serve`: The map.
* `ManagerCall`, `System`, `step`: The calls as they are made.
* `Sane`: What the surroundings have to provide.
* `ManagerCall.Short`: The names that are dealt with.

## Theorems

* `exchange_getService`, `exchange_addService`: Each call end to end.
* `step_refines`: Every step is a step of the map.
* `directory_refines`: So is every run.
-/

namespace ZeusOS

namespace Frameworks

open Foundation Foundation.Words Foundation.Runs Binder ServiceManager

/-- What the names stand for. A name that was never bound stands for nothing,
    and one whose service has died for zero. -/
abbrev Directory := List UInt8 → Option UInt32

/-- What the directory is asked. -/
inductive Request where
  | add (name : CString) (handle : UInt32)
  | get (name : CString)
  | death (name : CString)

def Directory.empty : Directory := fun _ => none

def Directory.bind (d : Directory) (name : CString) (handle : UInt32) : Directory :=
  fun chars => if chars = name.chars then some handle else d chars

/-- The answers it gives, and what it is afterwards. -/
def Directory.serve (d : Directory) : Request → List Int32 × Directory
  | .add name handle =>
    if 1 ≤ name.chars.length ∧ name.chars.length ≤ 127 then ([0], d.bind name handle)
    else ([-1], d)
  | .get name =>
    if 8 + alignNat (name.chars.length + 1) ≤ 1008 then ([((d name.chars).getD 0).toInt32], d)
    else ([-1], d)
  | .death name => ([], d.bind name 0)

def Directory.serveAll (d : Directory) : List Request → List Int32 × Directory
  | [] => ([], d)
  | r :: rs =>
    let (answers, d) := d.serve r
    let (answers', d) := d.serveAll rs
    (answers ++ answers', d)

/-- A call of the proxy, with what it meets, or the death of the service whose
    entry has the name. -/
inductive ManagerCall where
  | addService (name : CString) (ptr : UInt32) (alloc : Allocator) (serverIo : IoData)
      (o : Occasion)
  | getService (name : CString) (alloc : Allocator) (serverIo : IoData) (o : Occasion)
  | death (name : CString)

/-- The server's list, and what the calls have returned. -/
structure System where
  svclist : List SvcInfo
  answers : List ProxyResult
  deriving DecidableEq, Repr

def System.init : System := { svclist := [], answers := [] }

def step (s : System) : ManagerCall → Option System
  | .addService name ptr alloc serverIo o =>
    (exchange (BpServiceManager.addService (some name) ptr) (services alloc serverIo) o
      s.svclist).map fun (res, svclist) => { svclist, answers := s.answers ++ [res] }
  | .getService name alloc serverIo o =>
    (exchange (BpServiceManager.getService (some name)) (services alloc serverIo) o
      s.svclist).map fun (res, svclist) => { svclist, answers := s.answers ++ [res] }
  | .death name =>
    (s.svclist.find? fun si => si.key = nameKey name).bind fun si =>
      (ServiceManager.binderDeath si.cookie s.svclist).map fun (_, svclist) => { s with svclist }

/-- What a call asks of the directory. -/
def ManagerCall.request : ManagerCall → Request
  | .addService name _ _ _ o => .add name o.handle
  | .getService name _ _ _ => .get name
  | .death name => .death name

/-- The driver makes no handle zero, there is memory for a new entry, and only
    entries die. -/
def Sane (s : System) : ManagerCall → Prop
  | .addService name _ alloc _ o =>
    o.handle ≠ 0 ∧ (1 ≤ name.chars.length → name.chars.length ≤ 127 →
      bindings s.svclist (nameKey name) = none →
      (alloc.malloc (s.svclist.map SvcInfo.addr)
        (allocSize (UInt32.ofNat name.chars.length))).isSome = true)
  | .getService _ _ _ _ => True
  | .death name => (bindings s.svclist (nameKey name)).isSome = true

/-- The name is shorter than `MAX_BIO_SIZE`. -/
def ManagerCall.Short : ManagerCall → Prop
  | .addService name _ _ _ _ => name.chars.length < maxBioSize.toNat
  | .getService name _ _ _ => name.chars.length < maxBioSize.toNat
  | .death _ => True

theorem maxBioSize_toNat : maxBioSize.toNat = 2 ^ 30 := by decide

/-- The list says what the directory says. -/
structure Represents (svclist : List SvcInfo) (d : Directory) : Prop where
  kept : Kept svclist
  same : ∀ name : CString, bindings svclist (nameKey name) = d name.chars

variable {name : CString} {alloc : Allocator} {serverIo : IoData} {o : Occasion}
  {svclist : List SvcInfo}

/-- What the server finds when it reads the policy word and the name of a
    request that was delivered to it. -/
theorem name_reads {rewrite : Nat → UInt32 → UInt32} {recv : List UInt8} {offs : List UInt32}
    {p : Parcel} (hlen : name.chars.length < 2 ^ 30) (hR : Reader recv offs 0 p)
    {k : Nat} (hlay : Layout rewrite recv offs [.uint32 0, .string8 (some name)] k) :
    ∃ msg₁ msg₂ ptr rest, p.getUint32 = some (0, msg₁) ∧
      msg₁.getString8 = some ((some ptr, UInt32.ofNat name.chars.length), msg₂) ∧
      msg₂.buf.drop ptr = name.chars ++ 0 :: rest ∧ Reader recv offs k msg₂ := by
  -- From the back: the string is the last of the two, the policy word the first.
  rcases layout_last [.uint32 0] _ hlay with ⟨k₂, rfl, hlay, hstring, hle⟩
  rcases layout_last [] _ hlay with ⟨k₁, rfl, hlay, hword, _⟩
  rw [layout_nil hlay, encodedSize_uint32] at hstring hle ⊢
  rw [layout_nil hlay] at hword
  rcases getUint32_reader hR 0 hword.1 with ⟨msg₁, hpolicy, hR₁⟩
  have hsize : (name.chars ++ [0]).length = name.chars.length + 1 := by
    rw [List.length_append, List.length_singleton]
  rcases string_reads hR₁ 1 name.chars.length (name.chars ++ [0]) (string8_size name.chars)
    (by omega) (not_ge_of_lt _ _ (by rw [maxBioSize_div_one]; exact hlen)) hstring hle with
    ⟨msg₂, hget, ⟨rest, hrest⟩, hR₂⟩
  refine ⟨msg₁, msg₂, _, rest, hpolicy, hget, ?_, hR₂⟩
  rw [← hrest, List.append_assoc]
  rfl

/-- A word that was sent is read. -/
theorem word_reads (pl : Place) (handle : UInt32) {sent : Sent} {w : UInt32}
    (hdata : sent.data = le32 w) (hoffsets : sent.offsets = []) :
    ∃ p', (pl.parcel handle sent).getUint32 = some (w, p') := by
  rcases getUint32_reader (word_reader pl handle hdata hoffsets) w (List.prefix_refl _) with
    ⟨p', hget, _⟩
  exact ⟨p', hget⟩

variable {P : Proxy} {msg : Parcel}

/-- A request to the service manager goes to its handler. -/
theorem exchange_manager {res : Handled (List SvcInfo)}
    (hputs : puts P.request (Parcel.new o.msgIo) = some msg)
    (hclear : msg.flags.overflow = false)
    (hres : ServiceManager.onTransact alloc (o.there.txn (msg.sent 0 P.code P.flags))
      (o.there.parcel o.handle (msg.sent 0 P.code P.flags)) (Parcel.new serverIo) svclist
        = some res) :
    exchange P (services alloc serverIo) o svclist
      = (P.get (o.back.parcel o.handle (replyTxn res.reply res.status))).map
        fun v => (.returned v.1.toInt32, res.state) := by
  -- The node of handle zero has no address, which is how the parser tells.
  have htarget : (o.there.txn (msg.sent 0 P.code P.flags)).target = 0 := rfl
  refine exchange_eq hputs hclear ?_
  rw [Binder.onTransact, if_neg (not_not.mpr htarget)]
  exact hres

/-- A handler that succeeds sends its reply. -/
theorem exchange_replied {reply : Parcel} {writes : List RefCommand} {svclist' : List SvcInfo}
    (hputs : puts P.request (Parcel.new o.msgIo) = some msg)
    (hclear : msg.flags.overflow = false)
    (hres : ServiceManager.onTransact alloc (o.there.txn (msg.sent 0 P.code P.flags))
      (o.there.parcel o.handle (msg.sent 0 P.code P.flags)) (Parcel.new serverIo) svclist
        = some { status := 0, reply, writes, state := svclist' }) :
    exchange P (services alloc serverIo) o svclist
      = (P.get (o.back.parcel o.handle (reply.sent 0 0 0))).map
        fun v => (.returned v.1.toInt32, svclist') := by
  have hsent : replyTxn reply 0 = reply.sent 0 0 0 := if_neg (not_not.mpr rfl)
  rw [exchange_manager hputs hclear hres]
  simp only [hsent]

/-- One that fails sends its status instead. -/
theorem exchange_failed {reply : Parcel} {writes : List RefCommand} {svclist' : List SvcInfo}
    (hputs : puts P.request (Parcel.new o.msgIo) = some msg)
    (hclear : msg.flags.overflow = false)
    (hres : ServiceManager.onTransact alloc (o.there.txn (msg.sent 0 P.code P.flags))
      (o.there.parcel o.handle (msg.sent 0 P.code P.flags)) (Parcel.new serverIo) svclist
        = some { status := -1, reply, writes, state := svclist' }) :
    ∃ sent : Sent, sent.data = le32 0xffffffff ∧ sent.offsets = [] ∧
      exchange P (services alloc serverIo) o svclist
        = (P.get (o.back.parcel o.handle sent)).map
          fun v => (.returned v.1.toInt32, svclist') := by
  have hminus : (-1 : Int32) ≠ 0 := by decide
  have hword : (-1 : Int32).toUInt32 = 0xffffffff := by decide
  have hmanager := exchange_manager hputs hclear hres
  refine ⟨replyTxn reply (-1), ?_, ?_, hmanager⟩
  · rw [replyTxn, if_pos hminus, hword]
  · rw [replyTxn, if_pos hminus]

theorem getService_request_size (hlen : name.chars.length < 2 ^ 30) :
    totalSize (BpServiceManager.getService (some name)).request
      = 8 + alignNat (name.chars.length + 1) := by
  have hall : totalSize (BpServiceManager.getService (some name)).request
      = (PutOp.uint32 0).encodedSize + ((PutOp.string8 (some name)).encodedSize + 0) := rfl
  rw [hall, encodedSize_uint32, encodedSize_string8 name hlen]
  omega

theorem addService_request_size (ptr : UInt32) (hlen : name.chars.length < 2 ^ 30) :
    totalSize (BpServiceManager.addService (some name) ptr).request
      = 24 + alignNat (name.chars.length + 1) := by
  have hall : totalSize (BpServiceManager.addService (some name) ptr).request
      = (PutOp.uint32 0).encodedSize + ((PutOp.string8 (some name)).encodedSize
        + ((PutOp.obj ptr).encodedSize + 0)) := rfl
  rw [hall, encodedSize_uint32, encodedSize_string8 name hlen, object_size _ rfl]
  omega

/-- A lookup from end to end. -/
theorem exchange_getService (hkept : Kept svclist) (hlen : name.chars.length < 2 ^ 30) :
    exchange (BpServiceManager.getService (some name)) (services alloc serverIo) o svclist
      = some (.returned (if 8 + alignNat (name.chars.length + 1) ≤ 1008
          then ((bindings svclist (nameKey name)).getD 0).toInt32 else -1), svclist) := by
  have hsize := getService_request_size hlen
  by_cases hfit : 8 + alignNat (name.chars.length + 1) ≤ 1008
  · rw [if_pos hfit]
    rcases request_fits o.msgIo ⟨hsize.le.trans hfit, Nat.zero_le 4⟩ with ⟨msg, hputs, hclear⟩
    rcases carried_reader o.there o.handle 0 svcMgrCheckService 0 hputs hclear
      (delivered_plain hputs hclear rfl) with ⟨hR, hlay⟩
    rcases name_reads hlen hR hlay with ⟨msg₁, msg₂, ptr, rest, hpolicy, hstring, hname, _⟩
    -- What the server reads the name from ends in a zero, so its length is the one sent.
    have hfound := getService_eq hkept name rest
    rw [← hname] at hfound
    -- Whatever reply is made, it is sent, delivered and read for a handle.
    have hserved : ∀ reply, (if (bindings svclist (nameKey name)).getD 0 ≠ 0
        then (Parcel.new serverIo).putRef ((bindings svclist (nameKey name)).getD 0)
        else (Parcel.new serverIo).putUint32 0) = some reply →
        exchange (BpServiceManager.getService (some name)) (services alloc serverIo) o svclist
          = ((o.back.parcel o.handle (reply.sent 0 0 0)).getRef).map fun v =>
                (.returned v.1.toInt32, svclist) := by
      intro reply hreply
      have htarget : (o.there.txn (msg.sent 0 svcMgrCheckService 0)).target = 0 := rfl
      have hcode : (o.there.txn (msg.sent 0 svcMgrCheckService 0)).code = svcMgrCheckService := rfl
      have hres : ServiceManager.onTransact alloc (o.there.txn (msg.sent 0 svcMgrCheckService 0))
          (o.there.parcel o.handle (msg.sent 0 svcMgrCheckService 0)) (Parcel.new serverIo) svclist
            = some { status := 0, reply, writes := [], state := svclist } := by
        rw [onTransact_get htarget (Or.inr hcode) hpolicy hstring, hfound, Option.bind_some, hreply,
          Option.map_some]
      exact exchange_replied hputs hclear hres
    by_cases hhandle : (bindings svclist (nameKey name)).getD 0 ≠ 0
    · -- A bound name is answered with its handle.
      rcases ref_replied o.back o.handle serverIo hhandle with ⟨reply, hput, p', hget⟩
      rw [hserved reply (by rw [if_pos hhandle]; exact hput), hget]
      rfl
    · -- A name without a handle is answered with a zero that is no object.
      rcases word_replied serverIo 0 with ⟨reply, hput, hdata, hoffsets⟩
      have hreader : Reader (le32 0) [] 0 (o.back.parcel o.handle (reply.sent 0 0 0)) :=
        word_reader o.back o.handle hdata hoffsets
      rcases getRef_plain hreader with ⟨p', hget⟩
      rw [hserved reply (by rw [if_neg hhandle]; exact hput), hget, not_not.mp hhandle]
      rfl
  · rw [if_neg hfit]
    -- A name that is too long for the parcel never gets to the server.
    exact exchange_unfit fun h => hfit (hsize.ge.trans h.1)

/-- What the server finds in a registration that was delivered to it. The word
    about isolated processes was never sent. -/
theorem add_reads {ptr : UInt32} (hlen : name.chars.length < 2 ^ 30)
    (hputs : puts [.uint32 0, .string8 (some name), .obj ptr] (Parcel.new o.msgIo) = some msg)
    (hclear : msg.flags.overflow = false) (target code flags : UInt32) (txn : Txn) :
    ∃ msg₁ rest ref, (o.there.parcel o.handle (msg.sent target code flags)).getUint32
        = some (0, msg₁) ∧
      readAddService txn msg₁ = some (some (name.chars ++ 0 :: rest, ref)) ∧
      ref.len = UInt32.ofNat name.chars.length ∧ ref.handle = o.handle := by
  have hputs' : puts ([.uint32 0, .string8 (some name)] ++ [.obj ptr]) (Parcel.new o.msgIo)
      = some msg := hputs
  rcases carried_reader o.there o.handle target code flags hputs' hclear
    (delivered_obj hputs' hclear rfl) with ⟨hR, hlay⟩
  rcases layout_last _ _ hlay with ⟨k, hk, hlay, hholds, _⟩
  rcases name_reads hlen hR hlay with ⟨msg₁, msg₂, ptr', rest, hpolicy, hstring, hname, hR₂⟩
  rcases object_reads _ hR₂ (.obj ptr) rfl hholds hk.ge with ⟨msg₃, hget, hR₃⟩
  rw [← hk] at hR₃
  -- The message ends behind the object, and there a zero is read.
  rcases getUint32_end hR₃ with ⟨msg₄, hisolated, _⟩
  have href : msg₂.getRef = some (o.handle, msg₃) := hget
  refine ⟨msg₁, rest,
    { len := UInt32.ofNat name.chars.length
      senderEuid := txn.senderEuid
      senderPid := txn.senderPid
      allowIsolated := 0
      handle := o.handle }, hpolicy, ?_, rfl, rfl⟩
  rw [readAddService, hstring]
  simp only [Option.bind_some, href, hisolated, Option.map_some, hname, ne_eq, not_true,
    if_false]

/-- A registration that fits goes to `addService`, whose answer comes back. -/
theorem exchange_add (alloc : Allocator) (serverIo : IoData) (svclist : List SvcInfo)
    (ptr : UInt32) (hlen : name.chars.length < 2 ^ 30)
    (hfit : 24 + alignNat (name.chars.length + 1) ≤ 1008) :
    ∃ rest ref, ref.len = UInt32.ofNat name.chars.length ∧ ref.handle = o.handle ∧
      ∀ res writes svclist', res = 0 ∨ res = -1 →
        addService alloc (name.chars ++ 0 :: rest) ref svclist = some (res, writes, svclist') →
        exchange (BpServiceManager.addService (some name) ptr) (services alloc serverIo) o svclist
          = some (.returned res, svclist') := by
  have hsize := addService_request_size ptr hlen
  have hslots : totalSlots (BpServiceManager.addService (some name) ptr).request ≤ 4 := by
    change 1 ≤ 4
    decide
  rcases request_fits o.msgIo ⟨hsize.le.trans hfit, hslots⟩ with ⟨msg, hputs, hclear⟩
  rcases add_reads hlen hputs hclear 0 svcMgrAddService 0
    (o.there.txn (msg.sent 0 svcMgrAddService 0)) with
    ⟨msg₁, rest, ref, hpolicy, hread, href, hhandle⟩
  rcases word_replied serverIo 0 with ⟨reply, hput, hdata, hoffsets⟩
  have htarget : (o.there.txn (msg.sent 0 svcMgrAddService 0)).target = 0 := rfl
  have hcode : (o.there.txn (msg.sent 0 svcMgrAddService 0)).code = svcMgrAddService := rfl
  refine ⟨rest, ref, href, hhandle, fun res writes svclist' hres hadd => ?_⟩
  have hserved := onTransact_add htarget hcode hpolicy hread hadd hput
  rcases hres with rfl | rfl
  · -- A zero is written into the reply.
    rw [if_neg (not_not.mpr rfl)] at hserved
    have hsent : (reply.sent 0 0 0).data = le32 0 := hdata
    rcases word_reads o.back o.handle hsent hoffsets with ⟨p', hget⟩
    have hget' : (BpServiceManager.addService (some name) ptr).get
        (o.back.parcel o.handle (reply.sent 0 0 0)) = some (0, p') := hget
    rw [exchange_replied hputs hclear hserved, hget']
    rfl
  · -- Minus one is the status, and there is no other reply.
    rw [if_pos (by decide)] at hserved
    rcases exchange_failed hputs hclear hserved with ⟨sent, hdata, hoffsets, hdone⟩
    rcases word_reads o.back o.handle hdata hoffsets with ⟨p', hget⟩
    have hget' : (BpServiceManager.addService (some name) ptr).get
        (o.back.parcel o.handle sent) = some (0xffffffff, p') := hget
    rw [hdone, hget']
    rfl

/-- The answer of a registration is whether the name is valid, and a valid name
    is bound. -/
theorem exchange_addService (serverIo : IoData) (hkept : Kept svclist) (ptr : UInt32)
    (hlen : name.chars.length < 2 ^ 30) (hhandle : o.handle ≠ 0)
    (hmalloc : 1 ≤ name.chars.length → name.chars.length ≤ 127 →
      bindings svclist (nameKey name) = none →
      (alloc.malloc (svclist.map SvcInfo.addr)
        (allocSize (UInt32.ofNat name.chars.length))).isSome = true) :
    ∃ svclist', Kept svclist' ∧
      if 1 ≤ name.chars.length ∧ name.chars.length ≤ 127 then
        exchange (BpServiceManager.addService (some name) ptr) (services alloc serverIo) o svclist
            = some (.returned 0, svclist') ∧
          ∀ k, bindings svclist' k = if k = nameKey name then some o.handle else bindings svclist k
      else
        exchange (BpServiceManager.addService (some name) ptr) (services alloc serverIo) o svclist
            = some (.returned (-1), svclist') ∧ svclist' = svclist := by
  by_cases hvalid : 1 ≤ name.chars.length ∧ name.chars.length ≤ 127
  · have hfit : 24 + alignNat (name.chars.length + 1) ≤ 1008 := by
      have := alignNat_spec (name.chars.length + 1)
      omega
    rcases exchange_add alloc serverIo svclist ptr hlen hfit with ⟨rest, ref, href, hrefh, hdone⟩
    rw [← href] at hmalloc
    rw [← hrefh] at hhandle
    rcases addService_valid alloc rest hkept href hhandle hvalid.1 hvalid.2
      (hmalloc hvalid.1 hvalid.2) with ⟨writes, svclist', hadd, hkept', hbind⟩
    refine ⟨svclist', hkept', ?_⟩
    rw [if_pos hvalid]
    refine ⟨hdone 0 writes svclist' (Or.inl rfl) hadd, fun k => ?_⟩
    rw [hbind, hrefh]
  · refine ⟨svclist, hkept, ?_⟩
    rw [if_neg hvalid]
    refine ⟨?_, rfl⟩
    -- A name that is too long for a record may still fit into the parcel.
    by_cases hfit : 24 + alignNat (name.chars.length + 1) ≤ 1008
    · rcases exchange_add alloc serverIo svclist ptr hlen hfit with ⟨rest, ref, href, _, hdone⟩
      exact hdone (-1) [] svclist (Or.inr rfl)
        (addService_invalid alloc name _ svclist href hlen hvalid)
    · exact exchange_unfit fun h => hfit ((addService_request_size ptr hlen).ge.trans h.1)

theorem nameKey_iff (name name' : CString) :
    nameKey name = nameKey name' ↔ name.chars = name'.chars := by
  constructor
  · intro h
    exact (Prod.mk.inj h).2
  · intro h
    rw [nameKey, nameKey, h]

theorem represents_init : Represents System.init.svclist Directory.empty :=
  ⟨kept_nil, fun _ => rfl⟩

/-- Binding a name in the list is binding it in the directory. -/
theorem represents_bind {svclist' : List SvcInfo} {d : Directory} (hrep : Represents svclist d)
    (hkept : Kept svclist') (handle : UInt32)
    (hbind : ∀ k, bindings svclist' k
      = if k = nameKey name then some handle else bindings svclist k) :
    Represents svclist' (d.bind name handle) := by
  refine ⟨hkept, fun name' => ?_⟩
  rw [hbind, hrep.same, Directory.bind]
  by_cases h : name'.chars = name.chars
  · rw [if_pos h, if_pos ((nameKey_iff name' name).mpr h)]
  · rw [if_neg h, if_neg fun hkey => h ((nameKey_iff name' name).mp hkey)]

/-- A step is a step of the directory, and returns what it answers. -/
theorem step_refines {s : System} {d : Directory} {c : ManagerCall}
    (hrep : Represents s.svclist d) (hsane : Sane s c) (hshort : c.Short) :
    ∃ s', step s c = some s' ∧
      s'.answers = s.answers ++ (d.serve c.request).1.map ProxyResult.returned ∧
      Represents s'.svclist (d.serve c.request).2 := by
  cases c with
  | addService name ptr alloc serverIo o =>
      unfold ManagerCall.Short at hshort
      rw [maxBioSize_toNat] at hshort
      rcases exchange_addService serverIo hrep.kept ptr hshort hsane.1 hsane.2 with
        ⟨svclist', hkept', hdone⟩
      by_cases hvalid : 1 ≤ name.chars.length ∧ name.chars.length ≤ 127
      · rw [if_pos hvalid] at hdone
        rw [step, hdone.1, ManagerCall.request, Directory.serve, if_pos hvalid]
        exact ⟨_, rfl, rfl, represents_bind hrep hkept' o.handle hdone.2⟩
      · rw [if_neg hvalid] at hdone
        rw [step, hdone.1, hdone.2, ManagerCall.request, Directory.serve, if_neg hvalid]
        exact ⟨_, rfl, rfl, hrep⟩
  | getService name alloc serverIo o =>
      unfold ManagerCall.Short at hshort
      rw [maxBioSize_toNat] at hshort
      rw [step, exchange_getService hrep.kept hshort, hrep.same, ManagerCall.request,
        Directory.serve]
      refine ⟨_, rfl, ?_⟩
      by_cases hfit : 8 + alignNat (name.chars.length + 1) ≤ 1008
      · rw [if_pos hfit, if_pos hfit]
        exact ⟨rfl, hrep⟩
      · rw [if_neg hfit, if_neg hfit]
        exact ⟨rfl, hrep⟩
  -- The entry stays, with no handle: the name is bound to zero.
  | death name =>
      rcases Option.isSome_iff_exists.mp hsane with ⟨handle, hhandle⟩
      unfold bindings Keyed.lookup at hhandle
      rcases Option.map_eq_some_iff.mp hhandle with ⟨si, hfind, _⟩
      rcases Keyed.find_some hfind with ⟨hmem, hkey⟩
      rcases binderDeath_entry hrep.kept hmem with ⟨writes, hdeath⟩
      rw [step, hfind, Option.bind_some, hdeath, Option.map_some]
      refine ⟨_, rfl, (List.append_nil _).symm, ?_⟩
      refine represents_bind hrep (kept_update hrep.kept hmem 0) 0 fun k => ?_
      rw [bindings_update hrep.kept hmem, hkey]

/-- So is a run, from wherever it starts. -/
theorem run_refines (calls : List ManagerCall) {s : System} {d : Directory}
    (hrep : Represents s.svclist d) (hsane : Along step Sane s calls)
    (hshort : ∀ c ∈ calls, c.Short) :
    ∃ s', run step s calls = some s' ∧
      s'.answers
        = s.answers ++ (d.serveAll (calls.map ManagerCall.request)).1.map ProxyResult.returned ∧
      Represents s'.svclist (d.serveAll (calls.map ManagerCall.request)).2 := by
  induction calls generalizing s d with
  | nil => exact ⟨s, rfl, (List.append_nil _).symm, hrep⟩
  | cons c calls ih =>
      rw [along_cons] at hsane
      -- One step, and the rest from where it leads.
      rcases step_refines hrep hsane.1 (hshort c List.mem_cons_self) with ⟨t, hstep, hans, hrep'⟩
      rcases ih hrep' (hsane.2 t hstep) fun c' hc' => hshort c' (List.mem_cons_of_mem _ hc') with
        ⟨s', hrun, hans', hrep''⟩
      refine ⟨s', ?_, ?_, hrep''⟩
      · rw [run_cons, hstep, Option.bind_some, hrun]
      · rw [hans', hans, List.append_assoc, ← List.map_append]
        rfl

/-- The service manager is a directory: with names shorter than `MAX_BIO_SIZE`,
    every run returns what the directory answers, and ends in a list that says
    what the directory says. -/
theorem directory_refines (calls : List ManagerCall)
    (hsane : Along step Sane System.init calls) (hshort : ∀ c ∈ calls, c.Short) :
    ∃ s, run step System.init calls = some s ∧
      s.answers = (Directory.empty.serveAll (calls.map ManagerCall.request)).1.map
        ProxyResult.returned ∧
      ∀ name, bindings s.svclist (nameKey name)
        = (Directory.empty.serveAll (calls.map ManagerCall.request)).2 name.chars := by
  rcases run_refines calls represents_init hsane hshort with ⟨s, hrun, hans, hrep⟩
  exact ⟨s, hrun, hans, hrep.same⟩

instance (s : System) (c : ManagerCall) : Decidable (Sane s c) :=
  match c with
  | .addService .. => inferInstanceAs (Decidable (_ ∧ (_ → _ → _ → _)))
  | .getService .. => inferInstanceAs (Decidable True)
  | .death _ => inferInstanceAs (Decidable (_ = _))

instance (c : ManagerCall) : Decidable c.Short :=
  match c with
  | .addService .. => inferInstanceAs (Decidable (_ < _))
  | .getService .. => inferInstanceAs (Decidable (_ < _))
  | .death _ => inferInstanceAs (Decidable True)

def samplePlace : Place :=
  { buffer := 0x2000, offsets := 0x3000, bytes := [], words := [], senderPid := 1, senderEuid := 2 }

def sampleOccasion (handle : UInt32) : Occasion :=
  { client := quietServices, msgIo := zeroIo, replyIo := zeroIo, there := samplePlace,
    back := samplePlace, handle }

/-- A service is registered twice, dies, and is looked up in between. -/
def sampleCalls : List ManagerCall :=
  [.getService sampleName blocks zeroIo (sampleOccasion 0),
    .addService sampleName 0x100 blocks zeroIo (sampleOccasion 5),
    .getService sampleName blocks zeroIo (sampleOccasion 0),
    .addService sampleName 0x100 blocks zeroIo (sampleOccasion 6),
    .getService sampleName blocks zeroIo (sampleOccasion 0),
    .death sampleName,
    .getService sampleName blocks zeroIo (sampleOccasion 0)]

theorem directory_refines_sample : ∃ s, run step System.init sampleCalls = some s ∧
    s.answers = [.returned 0, .returned 0, .returned 5, .returned 0, .returned 6, .returned 0] := by
  rcases directory_refines sampleCalls (by decide +kernel) (by decide +kernel) with
    ⟨s, hrun, hans, _⟩
  refine ⟨s, hrun, hans.trans ?_⟩
  decide +kernel

/-- A name of `MAX_BIO_SIZE` characters or more is written as if there were
    none. -/
theorem putString8_overlong (hlong : maxBioSize.toNat ≤ name.chars.length) (p : Parcel) :
    p.putString8 (some name) = p.putString8 none := by
  have hlimit : UInt32.ofNat name.chars.length ≥ maxBioSize / 1 := by
    rw [ge_iff_le, UInt32.le_iff_toNat_le, length_toNat]
    exact hlong
  simp only [Parcel.putString8, Option.map_some, Option.map_none, Parcel.putString, if_pos hlimit]

/-- So its registration is one without a name. -/
theorem exchange_overlong {σ : Type} (hlong : maxBioSize.toNat ≤ name.chars.length) (ptr : UInt32)
    (server : Services σ) (t : σ) :
    exchange (BpServiceManager.addService (some name) ptr) server o t
      = exchange (BpServiceManager.addService none ptr) server o t := by
  have hputs : ∀ p, puts [.uint32 0, .string8 (some name), .obj ptr] p
      = puts [.uint32 0, .string8 none, .obj ptr] p := by
    intro p
    simp only [puts, PutOp.apply, putString8_overlong hlong]
  simp only [exchange, Proxy.call, BpServiceManager.addService, statusProxy, hputs]

/-- The directory turns such a name down, and the service manager says that it
    has registered it. -/
theorem overlong_answer (hlong : maxBioSize.toNat ≤ name.chars.length) :
    Sane System.init (.addService name 0x100 blocks zeroIo (sampleOccasion 5)) ∧
    (∃ svclist, step System.init (.addService name 0x100 blocks zeroIo (sampleOccasion 5))
      = some { svclist, answers := [.returned 0] }) ∧
    (Directory.empty.serve (.add name 5)).1 = [-1] := by
  have hlimit : ¬ name.chars.length ≤ 127 := by
    rw [maxBioSize_toNat] at hlong
    omega
  refine ⟨⟨by decide, fun _ hshort => absurd hshort hlimit⟩, ?_, ?_⟩
  · have hnone : (exchange (BpServiceManager.addService none 0x100) (services blocks zeroIo)
        (sampleOccasion 5) []).map Prod.fst = some (.returned 0) := by
      decide +kernel
    rcases Option.map_eq_some_iff.mp hnone with ⟨⟨res, svclist⟩, hres, rfl⟩
    refine ⟨svclist, ?_⟩
    rw [step, System.init, exchange_overlong hlong, hres]
    rfl
  · rw [Directory.serve, if_neg fun h => hlimit h.2]

/-- One such registration is enough for a run that is none of the directory's. -/
theorem overlong_run (hlong : maxBioSize.toNat ≤ name.chars.length) :
    Along step Sane System.init [.addService name 0x100 blocks zeroIo (sampleOccasion 5)] ∧
    ∃ s, run step System.init [.addService name 0x100 blocks zeroIo (sampleOccasion 5)] = some s ∧
      s.answers ≠ (Directory.empty.serveAll [.add name 5]).1.map ProxyResult.returned := by
  rcases overlong_answer hlong with ⟨hsane, ⟨svclist, hstep⟩, hserve⟩
  refine ⟨?_, ⟨svclist, [.returned 0]⟩, ?_, ?_⟩
  · rw [along_cons]
    exact ⟨hsane, fun s' _ => along_nil step Sane s'⟩
  · rw [run_cons, hstep]
    rfl
  · have hall : (Directory.empty.serveAll [.add name 5]).1
        = (Directory.empty.serve (.add name 5)).1 ++ [] := rfl
    have hdiffer : [ProxyResult.returned 0] ≠ [ProxyResult.returned (-1)] := by decide
    rw [hall, hserve]
    exact hdiffer

theorem uniformString_differs :
    ∃ s, run step System.init
        [.addService (uniformString maxBioSize.toNat (by decide)) 0x100 blocks zeroIo
          (sampleOccasion 5)] = some s ∧
      s.answers ≠ (Directory.empty.serveAll
        [.add (uniformString maxBioSize.toNat (by decide)) 5]).1.map ProxyResult.returned :=
  (overlong_run (List.length_replicate.ge : maxBioSize.toNat
    ≤ (uniformString maxBioSize.toNat (by decide)).chars.length)).2

end Frameworks

end ZeusOS
