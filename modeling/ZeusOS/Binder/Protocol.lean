import ZeusOS.Binder.Parcel

/-!
# The Driver's Command Streams

What passes between a process and the binder driver. Both directions are
streams of words, each followed by the payload its command prescribes: `BR_`
commands come back from a read, `BC_` commands go out with a write.

The `BR_` stream is decoded by the code under study, so it is kept as bytes
here and `Return.encode` says what a driver puts there. The `BC_` stream is
only ever produced, by stores into a local record, so it is kept as a list of
commands. A sent transaction is recorded with the bytes and offsets its
pointers designate, since that is what the driver copies out.

## Main definitions

* `myIoc`: The `MY_IOC` macro the command words are built with.
* `Txn.encode`, `Txn.load`: The forty bytes of a transaction.
* `Return`: The commands of `binder_driver_return_protocol`.
* `Case`, `switchCase`: The cases the parser tells apart.
* `Sent`, `Command`: What a process hands to the driver.

## Theorems

* `Txn.load_encode`: A transaction is loaded back.
* `switchCase_word`: Which case each return command falls into.
-/

namespace ZeusOS

namespace Binder

open Foundation.Words

/-- `MY_IOC`: direction, size, type and number packed into a command word. -/
def myIoc (dir type nr size : UInt32) : UInt32 :=
  (dir <<< 30) ||| (type <<< 8) ||| nr ||| (size <<< 16)

/-- `MY_IO`, for commands of type `r`. -/
def myIo (nr : UInt32) : UInt32 := myIoc 0 0x72 nr 0

/-- `MY_IOR`, for commands of type `r`. -/
def myIor (nr size : UInt32) : UInt32 := myIoc 2 0x72 nr size

def brError : UInt32 := myIor 0 4
def brOk : UInt32 := myIo 1
def brTransaction : UInt32 := myIor 2 40
def brReply : UInt32 := myIor 3 40
def brAcquireResult : UInt32 := myIor 4 4
def brDeadReply : UInt32 := myIo 5
def brTransactionComplete : UInt32 := myIo 6
def brIncrefs : UInt32 := myIor 7 8
def brAcquire : UInt32 := myIor 8 8
def brRelease : UInt32 := myIor 9 8
def brDecrefs : UInt32 := myIor 10 8
def brAttemptAcquire : UInt32 := myIor 11 12
def brNoop : UInt32 := myIo 12
def brSpawnLooper : UInt32 := myIo 13
def brFinished : UInt32 := myIo 14
def brDeadBinder : UInt32 := myIor 15 4
def brClearDeathNotificationDone : UInt32 := myIor 16 4
def brFailedReply : UInt32 := myIo 17

namespace Txn

/-- `sizeof(struct binder_transaction_data)`. -/
def wireSize : Nat := 40

def fields (t : Txn) : List UInt32 :=
  [t.target, t.cookie, t.code, t.flags, t.senderPid, t.senderEuid, t.dataSize, t.offsetsSize,
    t.buffer, t.offsets]

def encode (t : Txn) : List UInt8 := t.fields.flatMap le32

/-- Read the transaction a pointer designates. -/
def load (ptr : List UInt8) : Option Txn :=
  match loadWords 10 ptr with
  | some [target, cookie, code, flags, senderPid, senderEuid, dataSize, offsetsSize, buffer,
      offsets] => some ⟨target, cookie, code, flags, senderPid, senderEuid, dataSize,
        offsetsSize, buffer, offsets⟩
  | _ => none

/-- The sender expects no answer. -/
def oneWay (t : Txn) : Bool := t.flags &&& tfOneWay != 0

@[simp] theorem encode_length (t : Txn) : t.encode.length = wireSize := rfl

@[simp] theorem load_encode (t : Txn) (rest : List UInt8) : load (t.encode ++ rest) = some t := by
  have hwords : loadWords 10 (t.encode ++ rest) = some t.fields := loadWords_flatMap t.fields rest
  rw [load, hwords]
  rfl

end Txn

/-- `struct binder_ptr_cookie`. -/
structure PtrCookie where
  ptr : UInt32
  cookie : UInt32
  deriving DecidableEq, Repr

def PtrCookie.encode (p : PtrCookie) : List UInt8 := le32 p.ptr ++ le32 p.cookie

/-- The commands of `binder_driver_return_protocol`. -/
inductive Return where
  | error (value : UInt32)
  | ok
  | transaction (txn : Txn)
  | reply (txn : Txn)
  | acquireResult (value : UInt32)
  | deadReply
  | transactionComplete
  | increfs (p : PtrCookie)
  | acquire (p : PtrCookie)
  | release (p : PtrCookie)
  | decrefs (p : PtrCookie)
  | attemptAcquire (priority : UInt32) (p : PtrCookie)
  | noop
  | spawnLooper
  | finished
  | deadBinder (cookie : UInt32)
  | clearDeathNotificationDone (cookie : UInt32)
  | failedReply
  deriving DecidableEq, Repr

namespace Return

/-- The command word. -/
def word : Return → UInt32
  | error _ => brError
  | ok => brOk
  | transaction _ => brTransaction
  | reply _ => brReply
  | acquireResult _ => brAcquireResult
  | deadReply => brDeadReply
  | transactionComplete => brTransactionComplete
  | increfs _ => brIncrefs
  | acquire _ => brAcquire
  | release _ => brRelease
  | decrefs _ => brDecrefs
  | attemptAcquire _ _ => brAttemptAcquire
  | noop => brNoop
  | spawnLooper => brSpawnLooper
  | finished => brFinished
  | deadBinder _ => brDeadBinder
  | clearDeathNotificationDone _ => brClearDeathNotificationDone
  | failedReply => brFailedReply

/-- What follows the command word. -/
def payload : Return → List UInt8
  | error value => le32 value
  | transaction txn => txn.encode
  | reply txn => txn.encode
  | acquireResult value => le32 value
  | increfs p => p.encode
  | acquire p => p.encode
  | release p => p.encode
  | decrefs p => p.encode
  | attemptAcquire priority p => le32 priority ++ p.encode
  | deadBinder cookie => le32 cookie
  | clearDeathNotificationDone cookie => le32 cookie
  | _ => []

/-- The command as the driver puts it into the read buffer. -/
def encode (c : Return) : List UInt8 := le32 c.word ++ c.payload

end Return

/-- The cases of the parser's `switch`, those with the same body taken
    together. -/
inductive Case where
  | skip (size : Nat)
  | spawnLooper
  | transaction
  | reply
  | deadBinder
  | failed
  | default
  deriving DecidableEq, Repr

/-- Which case a command word falls into. The reference commands carry a
    `struct binder_ptr_cookie`, which is stepped over unread. -/
def switchCase (cmd : UInt32) : Case :=
  if cmd = brNoop ∨ cmd = brTransactionComplete then .skip 0
  else if cmd = brIncrefs ∨ cmd = brAcquire ∨ cmd = brRelease ∨ cmd = brDecrefs then .skip 8
  else if cmd = brSpawnLooper then .spawnLooper
  else if cmd = brTransaction then .transaction
  else if cmd = brReply then .reply
  else if cmd = brDeadBinder then .deadBinder
  else if cmd = brFailedReply ∨ cmd = brDeadReply then .failed
  else .default

/-- The case of each return command. -/
def Return.case : Return → Case
  | transaction _ => .transaction
  | reply _ => .reply
  | deadReply => .failed
  | failedReply => .failed
  | transactionComplete => .skip 0
  | noop => .skip 0
  | increfs _ => .skip 8
  | acquire _ => .skip 8
  | release _ => .skip 8
  | decrefs _ => .skip 8
  | spawnLooper => .spawnLooper
  | deadBinder _ => .deadBinder
  | _ => .default

-- The words are told apart by evaluation: no two commands of the protocol share one.
@[simp] theorem switchCase_word (c : Return) : switchCase c.word = c.case := by
  cases c <;> rfl

/-- A transaction handed to the driver, with the payload and the offsets its
    pointers designate. -/
structure Sent where
  target : UInt32
  code : UInt32
  flags : UInt32
  data : List UInt8
  offsets : List UInt32
  deriving DecidableEq, Repr

/-- The reference commands, which a handler may write on its own account. -/
inductive RefCommand where
  | acquire (target : UInt32)
  | release (target : UInt32)
  | requestDeathNotification (target cookie : UInt32)
  deriving DecidableEq, Repr

/-- The commands of `binder_driver_command_protocol` that the process writes. -/
inductive Command where
  | transaction (t : Sent)
  | reply (t : Sent)
  | freeBuffer (buffer : UInt32)
  | ref (c : RefCommand)
  | registerLooper
  | enterLooper
  deriving DecidableEq, Repr

end Binder

end ZeusOS
