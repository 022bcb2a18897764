import ZeusOS.Foundation.Words

/-!
# Binder Types

The constants and records of `Binder.h` that the parcels and the command
stream share, as they are on the 32-bit target (`BINDER_IPC_32BIT`): pointers,
handles and sizes are all words.

A process sees the messages it receives through the mapping of the binder
device. `Mapping` is that view: the bytes, and the offset words, readable from
an address on. A message buffer is followed in the mapping by whatever else is
there, so the list of readable bytes may be longer than the message.

C strings are carried with the fact that makes them C strings, that no
character is zero, and with the bound every object in a 32-bit address space
has.

## Main definitions

* `bPackChars`: The macro the type and command words are built with.
* `binderTypeBinder`, `binderTypeHandle`, `binderTypeFd`: Object types.
* `Txn`: `struct binder_transaction_data`.
* `Mapping`: The received buffers, by address.
* `IoData`: What the allocator hands a fresh parcel.
* `CString`, `CString16`: Terminated strings.
-/

namespace ZeusOS

namespace Binder

/-- `B_PACK_CHARS`: four characters packed into a word. -/
def bPackChars (c1 c2 c3 c4 : UInt32) : UInt32 :=
  (c1 <<< 24) ||| (c2 <<< 16) ||| (c3 <<< 8) ||| c4

/-- `B_TYPE_LARGE`. -/
def bTypeLarge : UInt32 := 0x85

/-- `BINDER_TYPE_BINDER`, packed from the characters `sb*`. -/
def binderTypeBinder : UInt32 := bPackChars 0x73 0x62 0x2a bTypeLarge

/-- `BINDER_TYPE_HANDLE`, packed from the characters `sh*`. -/
def binderTypeHandle : UInt32 := bPackChars 0x73 0x68 0x2a bTypeLarge

/-- `BINDER_TYPE_FD`, packed from the characters `fd*`. -/
def binderTypeFd : UInt32 := bPackChars 0x66 0x64 0x2a bTypeLarge

/-- `FLAT_BINDER_FLAG_ACCEPTS_FDS`. -/
def flatBinderFlagAcceptsFds : UInt32 := 0x100

/-- `MAX_BIO_SIZE`. -/
def maxBioSize : UInt32 := (1 : UInt32) <<< 30

/-- `TF_ONE_WAY`. -/
def tfOneWay : UInt32 := 0x01

/-- `TF_STATUS_CODE`. -/
def tfStatusCode : UInt32 := 0x08

/-- `TF_ACCEPT_FDS`. -/
def tfAcceptFds : UInt32 := 0x10

/-- `struct binder_transaction_data`, forty bytes on the wire. -/
structure Txn where
  target : UInt32
  cookie : UInt32
  code : UInt32
  flags : UInt32
  senderPid : UInt32
  senderEuid : UInt32
  dataSize : UInt32
  offsetsSize : UInt32
  buffer : UInt32
  offsets : UInt32
  deriving DecidableEq, Repr

/-- The received buffers as the process sees them: what is readable from an
    address on. -/
structure Mapping where
  bytes : UInt32 → List UInt8
  words : UInt32 → List UInt32

/-- What `new char[1024]` hands a fresh parcel: an address, and the leftovers
    of whoever used the memory before. -/
structure IoData where
  addr : UInt32
  bytes : Nat → UInt8
  words : Nat → UInt32

/-- A `char *` to a terminated string. -/
structure CString where
  chars : List UInt8
  nonzero : ∀ c ∈ chars, c ≠ 0
  fits : chars.length < 2 ^ 32

/-- An `unsigned short *` to a terminated string. -/
structure CString16 where
  units : List UInt16
  nonzero : ∀ u ∈ units, u ≠ 0
  fits : units.length < 2 ^ 32

/-- The string that is `n` times the same letter. -/
def uniformString (n : Nat) (hn : n < 2 ^ 32) : CString :=
  ⟨List.replicate n 0x61, fun c hc => by
    rw [List.eq_of_mem_replicate hc]
    decide, by
    rw [List.length_replicate]
    exact hn⟩

-- Strings are compared by their characters; the two facts come along.
@[ext] theorem CString.ext {s t : CString} (h : s.chars = t.chars) : s = t := by
  cases s
  cases t
  simp only at h
  subst h
  rfl

end Binder

end ZeusOS
