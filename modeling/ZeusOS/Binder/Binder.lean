import ZeusOS.Binder.Protocol

/-!
# The Binder Object

`Binder.cpp`: the parser of the return stream, the reply writer, the blocking
call and the looper.

The process behind the parser is a parameter. `Services` says what the objects
of the process do with a transaction and what a death callback does; its state
is an arbitrary type, so the results below hold for every service, and the
services of the repository are instances. A handler may write reference
commands to the driver while it runs; whatever it does, it comes back with a
status and a reply.

Every function returns what it did as a list of events in order. The commands
written to the driver are among them, so the order of a `BC_FREE_BUFFER`
relative to the handler that used the buffer can be read off.

`binderParse` is stated over the bytes readable from its pointer on, which may
be more than the bytes it is told about. It checks the size before it looks at
a transaction, and only there: a command word or a death cookie cut short is
read past the end. That read is a fault here if there is nothing to read.

The driver's side of a loop is a list of answers, one for each `ioctl`. A loop
whose answers are used up is still waiting.

## Main definitions

* `Services`: The objects of the process.
* `Event`: What the binder functions do.
* `binderParse`: One read's worth of return commands.
* `binderSendReply`, `binderDone`: Giving buffers back.
* `binderCall`: A blocking call.
* `binderLoop`, `binderThreadLoop`: The loopers.
-/

namespace ZeusOS

namespace Binder

open Foundation.Words

/-- What a handler comes back with. -/
structure Handled (σ : Type) where
  status : Int32
  reply : Parcel
  writes : List RefCommand
  state : σ

/-- `onTransact` of some object: the transaction, the loaded message and the
    fresh reply. -/
abbrev Handler (σ : Type) : Type := Txn → Parcel → Parcel → σ → Option (Handled σ)

/-- The objects of a process: what the allocator gives a fresh parcel, the
    object at an address, the service manager, and the death callbacks. -/
structure Services (σ : Type) where
  newIoData : σ → IoData
  bnBinder : UInt32 → Handler σ
  bnServiceManager : Handler σ
  binderDeath : UInt32 → σ → Option (List RefCommand × σ)

/-- What the binder functions do, as far as anyone outside can tell. -/
inductive Event where
  /-- A `BR_TRANSACTION` is taken from the stream. -/
  | transaction (txn : Txn)
  /-- The handler of a transaction has returned. -/
  | handled (txn : Txn) (status : Int32) (reply : Parcel)
  /-- A `BR_REPLY` is taken from the stream, for a waiting call or for nobody. -/
  | reply (txn : Txn) (waiting : Bool)
  /-- A looper thread is started. -/
  | spawnLooper
  /-- A death callback is made. -/
  | binderDeath (cookie : UInt32)
  /-- The driver consumed these bytes of the command that sends a request. -/
  | sending (t : Sent) (lo hi : Nat)
  /-- A command is written to the driver. -/
  | wrote (c : Command)
  /-- The caller is through with reading a reply. -/
  | replyRead (buffer : UInt32)
  deriving DecidableEq, Repr

/-- The commands a handler wrote, as events. -/
def refEvents (writes : List RefCommand) : List Event := writes.map fun c => .wrote (.ref c)

/-- A parcel as it is sent. -/
def Parcel.sent (p : Parcel) (target code flags : UInt32) : Sent :=
  { target, code, flags, data := p.payload, offsets := p.offsets }

/-- What the parser carries from command to command: the services' state, the
    caller's reply parcel if there is a caller, whether it is still waiting to
    be filled, and the value to return. -/
structure Looper (σ : Type) where
  state : σ
  data : Option Parcel
  bio : Bool
  r : Int

def Looper.start {σ : Type} (data : Option Parcel) (s : σ) : Looper σ :=
  { state := s, data, bio := data.isSome, r := 1 }

def Looper.fail {σ : Type} (l : Looper σ) : Looper σ := { l with r := -1 }

/-- How a handler's result is sent: its reply, or a status as the payload. -/
def replyTxn (reply : Parcel) (status : Int32) : Sent :=
  -- The status is sent as four bytes of payload, told from a reply by the flag alone.
  if status ≠ 0 then
    { target := 0, code := 0, flags := tfStatusCode, data := le32 status.toUInt32, offsets := [] }
  else reply.sent 0 0 0

/-- The reply is written together with the command that gives the request's
    buffer back. -/
def binderSendReply (reply : Parcel) (bufferToFree : UInt32) (status : Int32) : List Command :=
  [.freeBuffer bufferToFree, .reply (replyTxn reply status)]

/-- What a case of the `switch` does once its payload has been read. -/
inductive Action where
  | skip
  | spawnLooper
  | transaction (txn : Txn)
  | reply (txn : Txn)
  | deadBinder (cookie : UInt32)
  | failed
  deriving DecidableEq, Repr

variable {σ : Type}

/-- Read the payload of a command: the action it calls for and the bytes it
    takes, or nothing where the parser gives up. -/
def fetch (cmd : UInt32) (ptr : List UInt8) (left : Nat) : Option (Option (Action × Nat)) :=
  match switchCase cmd with
  | .skip size => some (some (.skip, size))
  | .spawnLooper => some (some (.spawnLooper, 0))
  | .transaction =>
    if left < Txn.wireSize then some none
    else (Txn.load ptr).map fun txn => some (.transaction txn, Txn.wireSize)
  | .reply =>
    if left < Txn.wireSize then some none
    else (Txn.load ptr).map fun txn => some (.reply txn, Txn.wireSize)
  | .deadBinder => (load32 ptr).map fun cookie => some (.deadBinder cookie, 4)
  | .failed => some (some (.failed, 0))
  | .default => some none

/-- The handler a transaction is for. -/
def onTransact (S : Services σ) (txn : Txn) : Handler σ :=
  if txn.target ≠ 0 then S.bnBinder txn.target else S.bnServiceManager

/-- A transaction handled, answered and its buffer given back. -/
def transactionEvents (txn : Txn) (h : Handled σ) : List Event :=
  .transaction txn :: refEvents h.writes ++ .handled txn h.status h.reply ::
    (binderSendReply h.reply txn.buffer h.status).map .wrote

def perform (S : Services σ) (mem : Mapping) (l : Looper σ) :
    Action → Option (List Event × Looper σ)
  | .skip => some ([], l)
  | .spawnLooper => some ([.spawnLooper], l)
  | .transaction txn =>
    -- The flags of the transaction are not looked at: every one is answered.
    let msg := Parcel.bioInitFromTxn mem txn
    let reply := Parcel.new (S.newIoData l.state)
    (onTransact S txn txn msg reply l.state).map fun h =>
      (transactionEvents txn h, { l with state := h.state })
  | .reply txn =>
    if l.bio then
      some ([.reply txn true],
        { l with data := some (Parcel.bioInitFromTxn mem txn), bio := false, r := 0 })
    -- Nobody waits for this reply, and its buffer is not given back.
    else some ([.reply txn false], { l with r := 0 })
  | .deadBinder cookie =>
    (S.binderDeath cookie l.state).map fun (writes, s) =>
      (.binderDeath cookie :: refEvents writes, { l with state := s })
  | .failed => some ([], l.fail)

/-- The parse loop. Every turn takes at least a command word off the bytes that
    are left, so as many turns as there are bytes are enough. -/
def parseLoop (S : Services σ) (mem : Mapping) :
    Nat → List UInt8 → Nat → Looper σ → Option (List Event × Looper σ)
  | 0, _, _, l => some ([], l)
  | turns + 1, ptr, left, l =>
    if left = 0 then some ([], l)
    else (load32 ptr).bind fun cmd => (fetch cmd (ptr.drop 4) (left - 4)).bind fun
      | none => some ([], l.fail)
      | some (action, size) => (perform S mem l action).bind fun (evs, l) =>
        (parseLoop S mem turns (ptr.drop (4 + size)) (left - (4 + size)) l).map fun (evs', l) =>
          (evs ++ evs', l)

def binderParse (S : Services σ) (mem : Mapping) (data : Option Parcel) (ptr : List UInt8)
    (size : Nat) (s : σ) : Option (List Event × Looper σ) :=
  parseLoop S mem size ptr size (Looper.start data s)

/-- What an `ioctl` comes back with: how far the driver consumed the bytes to
    be written, and, unless it failed, what it read. -/
inductive Answer where
  | failed (writeConsumed : Nat)
  | read (writeConsumed : Nat) (mem : Mapping) (readbuf : List UInt8) (readConsumed : Nat)

/-- How a call stands once the answers are used up. -/
inductive CallResult where
  | waiting
  | returned (res : Int32) (reply : Parcel)

/-- The loop of `binderCall`. The request is handed over from where the driver
    last stopped. -/
def callLoop (S : Services σ) (request : Sent) :
    List Answer → Nat → Parcel → σ → Option (List Event × CallResult × σ)
  | [], _, _, s => some ([], .waiting, s)
  | .failed hi :: _, lo, _, s => some ([.sending request lo hi], .returned (-1) .failed, s)
  | .read hi mem readbuf size :: answers, lo, reply, s =>
    (binderParse S mem (some reply) readbuf size s).bind fun (evs, l) =>
      let evs := .sending request lo hi :: evs
      let reply := l.data.getD reply
      -- A reply, a failure, or nothing for this call yet.
      if l.r = 0 then some (evs, .returned 0 reply, l.state)
      else if l.r < 0 then some (evs, .returned (-1) .failed, l.state)
      else (callLoop S request answers hi reply l.state).map fun (evs', res) => (evs ++ evs', res)

def binderCall (S : Services σ) (msg reply : Parcel) (target code flags : UInt32)
    (answers : List Answer) (s : σ) : Option (List Event × CallResult × σ) :=
  if msg.flags.overflow then some ([], .returned (-1) .failed, s)
  else callLoop S (msg.sent target code flags) answers 0 reply s

def binderDone (reply : Parcel) : List Event :=
  if reply.flags.shared then [.wrote (.freeBuffer reply.data0)] else []

/-- The loop of the two loopers, with whether it is still running. -/
def readLoop (S : Services σ) : List Answer → σ → Option (List Event × Bool × σ)
  | [], s => some ([], true, s)
  | .failed _ :: _, s => some ([], false, s)
  | .read _ mem readbuf size :: answers, s =>
    (binderParse S mem none readbuf size s).bind fun (evs, l) =>
      -- A looper expects no reply, so it leaves at one as it does at a failure.
      if l.r ≤ 0 then some (evs, false, l.state)
      else (readLoop S answers l.state).map fun (evs', res) => (evs ++ evs', res)

def binderLoop (S : Services σ) (answers : List Answer) (s : σ) :
    Option (List Event × Bool × σ) :=
  (readLoop S answers s).map fun (evs, res) => (.wrote .enterLooper :: evs, res)

/-- `binder_thread_loop`, the looper of a spawned thread. -/
def binderThreadLoop (S : Services σ) (answers : List Answer) (s : σ) :
    Option (List Event × Bool × σ) :=
  (readLoop S answers s).map fun (evs, res) => (.wrote .registerLooper :: evs, res)

end Binder

end ZeusOS
