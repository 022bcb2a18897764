import ZeusOS.Binder.Types

/-!
# Parcels

`Parcel.cpp`, function by function. A parcel is the `BinderIO` record together
with the two areas it points into: the data area starting at `data0` and the
offsets array starting at `offs0`. The cursors `data` and `offs` are kept as
distances from those starts, in bytes and in entries, and a `void *` into the
data area is such a distance too.

Every function that dereferences a pointer returns an option. `none` is an
access outside the areas, which the C code does not check for and which a
proof has to rule out. Running out of room is something else: that is what
`BIO_F_OVERFLOW` reports, and it is an ordinary result.

The arithmetic follows the conversions of the source. `data_avail` is an
`int`; `bioAlloc` compares it with the requested size cast to `int`, `get`
compares it converted to `unsigned`, and both subtract in `unsigned`.

## Main definitions

* `BioFlags`: The `BIO_F_*` bits.
* `Parcel`: A parcel and the memory it points into.
* `Parcel.new`, `Parcel.bioInitFromTxn`, `Parcel.failed`: The three states a
  parcel starts from.
* `Parcel.bioAlloc`, `Parcel.bioAllocObj`: Reserving room.
* `Parcel.putUint32` and the other `put` functions: Writing.
* `Parcel.get` and the `get` functions: Reading.
* `Parcel.payload`, `Parcel.offsets`: What is sent.
-/

namespace ZeusOS

namespace Binder

open Foundation.Words

/-- The flag bits of a `BinderIO`. -/
structure BioFlags where
  shared : Bool := false
  overflow : Bool := false
  ioerror : Bool := false
  deriving DecidableEq, Repr

/-- A parcel: the fields of its `BinderIO`, and the areas they point into. -/
structure Parcel where
  data : Nat
  offs : Nat
  dataAvail : Int
  offsAvail : Int
  data0 : UInt32
  offs0 : UInt32
  flags : BioFlags
  buf : List UInt8
  tab : List UInt32
  deriving DecidableEq, Repr

namespace Parcel

/-- The size of the area a fresh parcel allocates. -/
def iMax : Nat := 1024

/-- The number of offset slots of a fresh parcel. -/
def iMaxOffs : Nat := 4

/-- The bytes those slots take from the front of the area. -/
def offsBytes : Nat := iMaxOffs * 4

/-- The constructor. The slots always fit, so its early return is dead. -/
def new (io : IoData) : Parcel :=
  { data := 0
    offs := 0
    dataAvail := iMax - offsBytes
    offsAvail := iMaxOffs
    data0 := io.addr + UInt32.ofNat offsBytes
    offs0 := io.addr
    flags := {}
    buf := (List.range (iMax - offsBytes)).map io.bytes
    tab := (List.range iMaxOffs).map io.words }

/-- Point the parcel at a received message. Nothing of its former state
    survives. -/
def bioInitFromTxn (mem : Mapping) (txn : Txn) : Parcel :=
  { data := 0
    offs := 0
    dataAvail := toInt txn.dataSize
    offsAvail := toInt (txn.offsetsSize / 4)
    data0 := txn.buffer
    offs0 := txn.offsets
    flags := { shared := true }
    buf := mem.bytes txn.buffer
    tab := mem.words txn.offsets }

/-- The reply of a failed call: the record zeroed, its pointers with it, and
    only the error bit set. -/
def failed : Parcel :=
  { data := 0
    offs := 0
    dataAvail := 0
    offsAvail := 0
    data0 := 0
    offs0 := 0
    flags := { ioerror := true }
    buf := []
    tab := [] }

/-- The bytes written so far, which is what a send describes. -/
def payload (p : Parcel) : List UInt8 := p.buf.take p.data

/-- The offsets recorded so far. -/
def offsets (p : Parcel) : List UInt32 := p.tab.take p.offs

/-- Raise `BIO_F_OVERFLOW`. -/
def setOverflow (p : Parcel) : Parcel :=
  { p with flags := { p.flags with overflow := true } }

/-- `(size + 3) & (~3)`. -/
def alignSize (size : UInt32) : UInt32 := (size + 3) &&& ~~~3

/-- Move the cursor past `size` bytes. -/
def advance (size : UInt32) (p : Parcel) : Parcel :=
  { p with
    data := p.data + size.toNat
    dataAvail := toInt (toUnsigned p.dataAvail - size) }

/-- Store bytes into the data area. -/
def store (ptr : Nat) (bytes : List UInt8) (p : Parcel) : Option Parcel :=
  if ptr + bytes.length ≤ p.buf.length then some { p with buf := splice ptr bytes p.buf }
  else none

def bioAlloc (size : UInt32) (p : Parcel) : Option Nat × Parcel :=
  -- Both sides are read as `int`, so a size from 2 ^ 31 on passes as a negative one.
  if toInt (alignSize size) > p.dataAvail then (none, p.setOverflow)
  else (some p.data, p.advance (alignSize size))

/-- `*mBio->offs++ = obj - data0`, with the slot count lowered first. -/
def pushOffset (obj : Nat) (p : Parcel) : Option Parcel :=
  if p.offs < p.tab.length then
    some { p with
      tab := p.tab.set p.offs (UInt32.ofNat obj)
      offs := p.offs + 1
      offsAvail := p.offsAvail - 1 }
  else none

def bioAllocObj (p : Parcel) : Option (Option Nat × Parcel) :=
  match p.bioAlloc 16 with
  | (some obj, p) =>
    -- The room is taken before the slots are looked at, and is not given back.
    if p.offsAvail ≠ 0 then (p.pushOffset obj).map (fun p => (some obj, p))
    else some (none, p.setOverflow)
  | (none, p) => some (none, p.setOverflow)

/-- Reserve room and, if there was any, copy the bytes there. -/
def allocCopy (size : UInt32) (bytes : List UInt8) (p : Parcel) : Option Parcel :=
  match p.bioAlloc size with
  | (some ptr, p) => p.store ptr bytes
  | (none, p) => some p

def putUint32 (iVal : UInt32) (p : Parcel) : Option Parcel :=
  p.allocCopy 4 (le32 iVal)

/-- The sixteen bytes of a `struct flat_binder_object`, flags and cookie as
    every writer sets them. -/
def flatObject (type value : UInt32) : List UInt8 :=
  le32 type ++ le32 (0x7f ||| flatBinderFlagAcceptsFds) ++ le32 value ++ le32 0

/-- Fill in the object an allocation returned, if it returned one. -/
def fillObj (type value : UInt32) : Option Nat × Parcel → Option Parcel
  | (some obj, p) => p.store obj (flatObject type value)
  | (none, p) => some p

def putFd (iFd : UInt32) (p : Parcel) : Option Parcel :=
  p.bioAllocObj.bind (fillObj binderTypeFd iFd)

def putObj (ptr : UInt32) (p : Parcel) : Option Parcel :=
  p.bioAllocObj.bind (fillObj binderTypeBinder ptr)

/-- A zero handle takes room like any other object but records no offset. -/
def putRef (iHandle : UInt32) (p : Parcel) : Option Parcel :=
  if iHandle ≠ 0 then p.bioAllocObj.bind (fillObj binderTypeHandle iHandle)
  else fillObj binderTypeHandle iHandle (p.bioAlloc 16)

/-- The common body of the string writers: the length word, then the
    characters with their terminator, `unit` bytes each. A null pointer and a
    string past the limit are both sent as the length word `0xffffffff`. -/
def putString (unit : UInt32) : Option (UInt32 × List UInt8) → Parcel → Option Parcel
  | none, p => p.putUint32 0xffffffff
  | some (len, bytes), p =>
    if len ≥ maxBioSize / unit then p.putUint32 0xffffffff
    else (p.putUint32 len).bind (fun p => p.allocCopy ((len + 1) * unit) bytes)

def putString8 (str : Option CString) : Parcel → Option Parcel :=
  putString 1 (str.map fun s => (UInt32.ofNat s.chars.length, s.chars ++ [0]))

def putString16 (str : Option CString16) : Parcel → Option Parcel :=
  putString 2 (str.map fun s =>
    (UInt32.ofNat s.units.length, (s.units ++ [0]).flatMap le16))

/-- The same wire form from a byte string, each byte widened. -/
def putString16X (str : Option CString) : Parcel → Option Parcel :=
  putString 2 (str.map fun s =>
    (UInt32.ofNat s.chars.length, (s.chars.map UInt8.toUInt16 ++ [0]).flatMap le16))

def get (size : UInt32) (p : Parcel) : Option Nat × Parcel :=
  -- Here the room is converted instead, and a negative one would pass for a large one.
  if toUnsigned p.dataAvail < alignSize size then
    (none, { p.setOverflow with dataAvail := 0 })
  else (some p.data, p.advance (alignSize size))

def getUint32 (p : Parcel) : Option (UInt32 × Parcel) :=
  match p.get 4 with
  | (some ptr, p) => (load32 (p.buf.drop ptr)).map (fun w => (w, p))
  | (none, p) => some (0, p)

/-- The common body of the string readers: the pointer, and the length word
    stored through `size`. -/
def getString (unit : UInt32) (p : Parcel) : Option ((Option Nat × UInt32) × Parcel) :=
  p.getUint32.map fun (len, p) =>
    match p.get ((len + 1) * unit) with
    | (ptr, p) => ((ptr, len), p)

def getString8 : Parcel → Option ((Option Nat × UInt32) × Parcel) := getString 1

def getString16 : Parcel → Option ((Option Nat × UInt32) × Parcel) := getString 2

/-- The search loop of `getObj` over the entries that remain. -/
def searchOffs (off : UInt32) : Nat → List UInt32 → Option Bool
  | 0, _ => some false
  | _ + 1, [] => none
  | n + 1, entry :: rest => if entry = off then some true else searchOffs off n rest

def getObj (p : Parcel) : Option (Option Nat × Parcel) :=
  (searchOffs (UInt32.ofNat p.data) p.offsAvail.toNat (p.tab.drop p.offs)).map fun found =>
    -- An object that is not listed ends the reading: the room left is dropped with it.
    if found then p.get 16 else (none, { p.setOverflow with dataAvail := 0 })

/-- The common body of the object readers: the value field of an object of the
    expected type, and zero for everything else. -/
def getObjOf (type : UInt32) (p : Parcel) : Option (UInt32 × Parcel) :=
  p.getObj.bind fun
    | (some obj, p) =>
      (load32 (p.buf.drop obj)).bind fun t =>
        if t = type then (load32 (p.buf.drop (obj + 8))).map (fun v => (v, p))
        else some (0, p)
    | (none, p) => some (0, p)

def getFd : Parcel → Option (UInt32 × Parcel) := getObjOf binderTypeFd

def getRef : Parcel → Option (UInt32 × Parcel) := getObjOf binderTypeHandle

end Parcel

end Binder

end ZeusOS
