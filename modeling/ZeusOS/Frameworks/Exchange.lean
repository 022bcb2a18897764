import ZeusOS.Binder.Looper
import ZeusOS.Binder.Room
import ZeusOS.Frameworks.Proxies

/-!
# A Call from End to End

One proxy call and the server that answers it, with a driver between them. The
driver delivers what is sent byte for byte, except that a binder in it arrives
as a handle; where it puts a message, and what lies behind it there, is its own
affair.

The client is run twice over the same inputs: once up to the point where it
waits, to see what it hands to the driver, and once with the answer. That is
the same call, since a call depends only on what it is given.

`exchange_eq` takes the machinery away: what a call that has been sent returns
is what the getter reads from the reply of the handler.

## Main definitions

* `Place`: Where a message lands.
* `Occasion`: What a call happens to meet.
* `exchange`: The call and its answer.

## Theorems

* `call_refused`: A request that does not fit is not sent.
* `request_fits`, `exchange_unfit`: Which requests are sent.
* `exchange_refused`, `exchange_eq`: What comes back.
* `carried_reader`: A delivered message can be read.
* `delivered_plain`, `delivered_obj`, `delivered_ref`: What arrives.
* `word_reader`, `word_replied`, `ref_replied`: Replies of one value.
-/

namespace ZeusOS

namespace Frameworks

open Foundation.Words Binder

/-- Where the driver puts a message, what lies behind it there, and what it
    says about the sender. -/
structure Place where
  buffer : UInt32
  offsets : UInt32
  bytes : List UInt8
  words : List UInt32
  senderPid : UInt32
  senderEuid : UInt32

/-- What the receiver finds there: the message, its binders replaced by the
    handle. -/
def Place.mapping (pl : Place) (handle : UInt32) (sent : Sent) : Mapping :=
  { bytes := fun _ => deliver handle sent.offsets sent.data ++ pl.bytes
    words := fun _ => sent.offsets ++ pl.words }

/-- The transaction that tells the receiver about it. The node of handle zero
    has no address. -/
def Place.txn (pl : Place) (sent : Sent) : Txn :=
  { target := 0
    cookie := 0
    code := sent.code
    flags := sent.flags
    senderPid := pl.senderPid
    senderEuid := pl.senderEuid
    dataSize := UInt32.ofNat sent.data.length
    offsetsSize := UInt32.ofNat (4 * sent.offsets.length)
    buffer := pl.buffer
    offsets := pl.offsets }

/-- The message as the receiver loads it. -/
def Place.parcel (pl : Place) (handle : UInt32) (sent : Sent) : Parcel :=
  Parcel.bioInitFromTxn (pl.mapping handle sent) (pl.txn sent)

/-- What a call happens to meet: the client's objects and memory, the driver's
    choices, and the handle it makes of a binder. -/
structure Occasion where
  client : Services Unit
  msgIo : IoData
  replyIo : IoData
  there : Place
  back : Place
  handle : UInt32

/-- The driver has taken the request. -/
def accepted : Read :=
  { mem := ⟨fun _ => [], fun _ => []⟩, commands := [.noop, .transactionComplete], stale := [] }

/-- The request as the server reads it. -/
def Occasion.delivery (o : Occasion) (request : Sent) : Read :=
  { mem := o.there.mapping o.handle request
    commands := [.noop, .transaction (o.there.txn request)]
    stale := [] }

/-- The reply as the client reads it. -/
def Occasion.answer (o : Occasion) (reply : Sent) : Read :=
  { mem := o.back.mapping o.handle reply
    commands := [.noop, .reply (o.back.txn reply)]
    stale := [] }

/-- The request a call has handed to the driver. -/
def requestOf (evs : List Event) : Option Sent :=
  evs.findSome? fun
    | .sending t _ _ => some t
    | _ => none

variable {σ : Type}

/-- A call of the service manager's handle, and the server's turn between the
    request and the answer. -/
def exchange (P : Proxy) (server : Services σ) (o : Occasion) (t : σ) :
    Option (ProxyResult × σ) :=
  (P.call o.client 0 o.msgIo o.replyIo [accepted.answer 44] ()).bind fun (evs, res, _) =>
    match requestOf evs with
    | none => some (res, t)
    | some request =>
      let r := o.delivery request
      (binderParse server r.mem none (encodeAll r.commands ++ r.stale)
        (encodeAll r.commands).length t).bind fun (evs, l) =>
        (repliesOf evs).head?.bind fun reply =>
          (P.call o.client 0 o.msgIo o.replyIo
            [accepted.answer 44, (o.answer reply).answer 44] ()).map fun (_, res, _) =>
              (res, l.state)

variable {P : Proxy} {o : Occasion} {msg : Parcel} {τ : Type} {S : Services τ}

/-- A request that did not fit into the parcel fails at once. -/
theorem call_refused {h : UInt32} {msgIo replyIo : IoData} {answers : List Answer} {s : τ}
    (hputs : puts P.request (Parcel.new msgIo) = some msg)
    (hoverflow : msg.flags.overflow = true) :
    P.call S h msgIo replyIo answers s = some ([], .returned (-1), s) := by
  have hminus : (-1 : Int32) ≠ 0 := by decide
  rw [Proxy.call, hputs, Option.bind_some, binderCall, if_pos hoverflow]
  simp only [Option.bind_some, if_pos hminus]

/-- Until there is an answer, the call waits. -/
theorem call_sent {h : UInt32} {msgIo replyIo : IoData} {s : τ} {n : Nat}
    (hputs : puts P.request (Parcel.new msgIo) = some msg)
    (hclear : msg.flags.overflow = false) :
    P.call S h msgIo replyIo [accepted.answer n] s
      = some ([.sending (msg.sent h P.code P.flags) 0 n], .waiting, s) := by
  rw [Proxy.call, hputs, Option.bind_some, binderCall, hclear, if_neg Bool.false_ne_true]
  simp only [Read.answer, callLoop, binderParse_encode]
  rfl

/-- With the answer, the call returns what its getter reads. -/
theorem call_answered {h : UInt32} {msgIo replyIo : IoData} {s : τ} {n : Nat} {mem : Mapping}
    {txn : Txn} (hputs : puts P.request (Parcel.new msgIo) = some msg)
    (hclear : msg.flags.overflow = false) :
    (P.call S h msgIo replyIo
        [accepted.answer n, Read.answer n ⟨mem, [.noop, .reply txn], []⟩] s).map
        (fun r => r.2.1)
      = (P.get (Parcel.bioInitFromTxn mem txn)).map fun v => .returned v.1.toInt32 := by
  -- The two reads: one that says the request was taken, and one with the reply.
  have hcall : binderCall S msg (Parcel.new replyIo) h P.code P.flags
      [accepted.answer n, Read.answer n ⟨mem, [.noop, .reply txn], []⟩] s
        = some ([.sending (msg.sent h P.code P.flags) 0 n, .sending (msg.sent h P.code P.flags) n n,
            .reply txn true], .returned 0 (Parcel.bioInitFromTxn mem txn), s) := by
    rw [binderCall, hclear, if_neg Bool.false_ne_true]
    simp only [Read.answer, callLoop, binderParse_encode]
    rfl
  rw [Proxy.call, hputs, Option.bind_some, hcall]
  simp only [Option.bind_some, ne_eq, not_true, if_false, Option.map_map]
  rfl

/-- A request that does not fit never gets to the server. -/
theorem exchange_refused {server : Services σ} {t : σ}
    (hputs : puts P.request (Parcel.new o.msgIo) = some msg)
    (hoverflow : msg.flags.overflow = true) :
    exchange P server o t = some (.returned (-1), t) := by
  rw [exchange, call_refused hputs hoverflow]
  rfl

/-- Which requests fit. -/
theorem request_fits (io : IoData)
    (hfits : totalSize P.request ≤ 1008 ∧ totalSlots P.request ≤ 4) :
    ∃ msg, puts P.request (Parcel.new io) = some msg ∧ msg.flags.overflow = false := by
  rcases writer_puts P.request _ (writer_new io) with ⟨msg, hputs, _, _⟩
  exact ⟨msg, hputs, (puts_clear_iff hputs).mpr hfits⟩

theorem exchange_unfit {server : Services σ} {t : σ}
    (hunfit : ¬ (totalSize P.request ≤ 1008 ∧ totalSlots P.request ≤ 4)) :
    exchange P server o t = some (.returned (-1), t) := by
  rcases writer_puts P.request _ (writer_new o.msgIo) with ⟨msg, hputs, _, _⟩
  refine exchange_refused hputs ?_
  by_contra hclear
  exact hunfit ((puts_clear_iff hputs).mp (Bool.eq_false_iff.mpr hclear))

/-- A request that fits is handled, and what the handler replied is read. -/
theorem exchange_eq {server : Services σ} {t : σ} {res : Handled σ}
    (hputs : puts P.request (Parcel.new o.msgIo) = some msg)
    (hclear : msg.flags.overflow = false)
    (hres : onTransact server (o.there.txn (msg.sent 0 P.code P.flags))
      (o.there.txn (msg.sent 0 P.code P.flags)) (o.there.parcel o.handle (msg.sent 0 P.code P.flags))
      (Parcel.new (server.newIoData t)) t = some res) :
    exchange P server o t = (P.get (o.back.parcel o.handle (replyTxn res.reply res.status))).map
      fun v => (.returned v.1.toInt32, res.state) := by
  unfold Place.parcel at hres
  -- The server's turn: one transaction, handled and answered.
  have hserved : binderParse server (o.delivery (msg.sent 0 P.code P.flags)).mem none
      (encodeAll (o.delivery (msg.sent 0 P.code P.flags)).commands
        ++ (o.delivery (msg.sent 0 P.code P.flags)).stale)
      (encodeAll (o.delivery (msg.sent 0 P.code P.flags)).commands).length t
        = some (transactionEvents (o.there.txn (msg.sent 0 P.code P.flags)) res,
            { Looper.start none t with state := res.state }) := by
    rw [binderParse_encode]
    simp only [Occasion.delivery, execute, Return.action, perform, Option.bind_some,
      Looper.start, hres, Option.map_some, List.append_nil, List.nil_append]
  have hrequest : requestOf [.sending (msg.sent 0 P.code P.flags) 0 44]
      = some (msg.sent 0 P.code P.flags) := rfl
  rw [exchange, call_sent hputs hclear]
  simp only [Option.bind_some, hrequest, hserved, repliesOf_transactionEvents, List.head?_cons]
  -- The client's second run, now with the answer.
  have hanswered : (P.call o.client 0 o.msgIo o.replyIo
      [accepted.answer 44, (o.answer (replyTxn res.reply res.status)).answer 44] ()).map
        (fun r => r.2.1)
      = (P.get (o.back.parcel o.handle (replyTxn res.reply res.status))).map fun v =>
        .returned v.1.toInt32 :=
    call_answered hputs hclear
  have hpair := congrArg (Option.map fun r => (r, res.state)) hanswered
  rw [Option.map_map, Option.map_map] at hpair
  exact hpair

/-- What was written without overflow, delivered somewhere, can be read there. -/
theorem carried_reader (pl : Place) (handle target code flags : UInt32) {io : IoData}
    {ops : List PutOp} {p : Parcel} {rewrite : Nat → UInt32 → UInt32}
    (hputs : puts ops (Parcel.new io) = some p) (hclear : p.flags.overflow = false)
    (hdelivered : Delivered p.offsets rewrite p.payload (deliver handle p.offsets p.payload)) :
    Reader (deliver handle p.offsets p.payload) p.offsets 0
        (pl.parcel handle (p.sent target code flags)) ∧
      Layout rewrite (deliver handle p.offsets p.payload) p.offsets ops
        (deliver handle p.offsets p.payload).length := by
  have hWq := writer_of_puts hputs
  have hbound := payload_length_le p hWq
  have hslots := hWq.slots
  have hfree := hWq.free
  have hcount := offsets_length p hWq
  have hlength := hdelivered.length
  -- A parcel holds at most 1008 bytes and four offsets, so neither size wraps.
  have hcarries : Carries (pl.mapping handle (p.sent target code flags))
      (pl.txn (p.sent target code flags)) (deliver handle p.offsets p.payload) p.offsets := by
    refine ⟨List.prefix_append _ _, List.prefix_append _ _, ?_, ?_⟩
    · rw [hlength]
      exact UInt32.toNat_ofNat_of_lt' (show p.payload.length < 2 ^ 32 by omega)
    · exact UInt32.toNat_ofNat_of_lt' (show 4 * p.offsets.length < 2 ^ 32 by omega)
  refine ⟨reader_init _ _ _ _ hcarries (by omega), ?_⟩
  rw [hlength]
  exact (layout_of_puts io rewrite ops p hputs hclear).2.2 _ hdelivered

theorem offsets_plain {io : IoData} {ops : List PutOp} {p : Parcel}
    (hputs : puts ops (Parcel.new io) = some p) (hclear : p.flags.overflow = false)
    (hplain : totalSlots ops = 0) : p.offsets = [] :=
  List.eq_nil_of_length_eq_zero ((offsets_puts io ops p hputs hclear).trans hplain)

/-- Values that are no objects arrive as they were sent. -/
theorem delivered_plain {handle : UInt32} {io : IoData} {ops : List PutOp} {p : Parcel}
    (hputs : puts ops (Parcel.new io) = some p) (hclear : p.flags.overflow = false)
    (hplain : totalSlots ops = 0) :
    Delivered p.offsets (fun _ v => v) p.payload (deliver handle p.offsets p.payload) := by
  rw [offsets_plain hputs hclear hplain]
  exact delivered_nil _ _

/-- Where the one object of a message stands. -/
theorem object_at {io : IoData} {ops : List PutOp} {op : PutOp} {p : Parcel} {type : UInt32}
    (hputs : puts (ops ++ [op]) (Parcel.new io) = some p) (hclear : p.flags.overflow = false)
    (hplain : totalSlots ops = 0) (hobj : op.isObject = true)
    (hsegs : op.segments = [Parcel.flatObject type op.objectValue]) :
    ∃ off, p.offsets = [off] ∧ off.toNat + 16 ≤ p.payload.length ∧
      le32 type <+: p.payload.drop off.toNat := by
  rcases puts_snoc ops op _ p (writer_new io) hputs hclear with ⟨q, hq, hWq, hqclear, hwrote⟩
  rcases hwrote.wrote hclear with ⟨chunk, hchunk, hpay, hoff⟩
  -- Without objects before it, its offset is the only one.
  have hnone := offsets_plain hq hqclear hplain
  have hsize := padded_size op chunk hchunk
  have hqlen := payload_length q hWq
  have hbound := payload_length_le q hWq
  have hpos : (UInt32.ofNat q.data).toNat = q.payload.length := by
    rw [hqlen]
    exact UInt32.toNat_ofNat_of_lt' (show q.data < 2 ^ 32 by omega)
  rw [object_size op hobj] at hsize
  rw [hnone, List.nil_append, if_pos hobj] at hoff
  refine ⟨UInt32.ofNat q.data, hoff, ?_, ?_⟩
  · rw [hpos, hpay, List.length_append, hsize]
  · rw [hpos, hpay, List.drop_left]
    rw [hsegs] at hchunk
    rcases hchunk with _ | ⟨_, pad, _, rest, _, _⟩
    rw [List.append_assoc]
    exact flatObject_type _ _ _

/-- A binder behind other values arrives as the handle. -/
theorem delivered_obj {handle ptr : UInt32} {io : IoData} {ops : List PutOp} {p : Parcel}
    (hputs : puts (ops ++ [.obj ptr]) (Parcel.new io) = some p)
    (hclear : p.flags.overflow = false) (hplain : totalSlots ops = 0) :
    Delivered p.offsets (fun _ _ => handle) p.payload (deliver handle p.offsets p.payload) := by
  rcases object_at hputs hclear hplain rfl rfl with ⟨off, hoff, hin, htype⟩
  rw [hoff]
  exact delivered_binder handle off p.payload hin htype

/-- A handle arrives as it is. -/
theorem delivered_ref {handle iHandle : UInt32} {io : IoData} {p : Parcel}
    (hputs : puts [.ref iHandle] (Parcel.new io) = some p) (hclear : p.flags.overflow = false)
    (hhandle : iHandle ≠ 0) :
    Delivered p.offsets (fun _ v => v) p.payload (deliver handle p.offsets p.payload) := by
  have hobj : (PutOp.ref iHandle).isObject = true := decide_eq_true hhandle
  have hputs' : puts ([] ++ [.ref iHandle]) (Parcel.new io) = some p := hputs
  rcases object_at hputs' hclear rfl hobj rfl with ⟨off, hoff, _, htype⟩
  have hload := (load32_iff_le32 _ _).mpr htype
  have hnot : ∀ w, load32 (p.payload.drop off.toNat) = some w → w ≠ binderTypeBinder := by
    intro w hw
    rw [hload, Option.some.injEq] at hw
    rw [← hw]
    decide
  -- The driver looks for a binder and finds a handle.
  have hsame : deliver handle p.offsets p.payload = p.payload := by
    rw [hoff]
    exact if_neg fun hc => hnot _ hc rfl
  rw [hsame]
  refine delivered_refl _ _ fun off' hoff' hc => ?_
  rw [hoff, List.mem_singleton] at hoff'
  rw [hoff'] at hc
  exact hnot _ ((load32_iff_le32 _ _).mpr hc) rfl

/-- A message of one word, as a status or a number is sent. -/
theorem word_reader (pl : Place) (handle : UInt32) {sent : Sent} {w : UInt32}
    (hdata : sent.data = le32 w) (hoffsets : sent.offsets = []) :
    Reader (le32 w) [] 0 (pl.parcel handle sent) := by
  refine reader_init _ _ _ _ ⟨?_, List.nil_prefix, ?_, ?_⟩ (by rw [le32_length]; decide)
  · rw [Place.mapping, hoffsets, hdata]
    exact List.prefix_append _ _
  · rw [Place.txn, hdata]
    rfl
  · rw [Place.txn, hoffsets]
    rfl

/-- A reply of one number is sent as its bytes. -/
theorem word_replied (io : IoData) (w : UInt32) :
    ∃ reply, (Parcel.new io).putUint32 w = some reply ∧ reply.payload = le32 w ∧
      reply.offsets = [] := by
  have hsize := encodedSize_uint32 w
  rcases apply_new io (.uint32 w) (by omega) with ⟨reply, hput, hputs, hclear⟩
  refine ⟨reply, hput, ?_, offsets_plain hputs hclear rfl⟩
  have hpay := apply_new_payload (by omega) hput
  generalize reply.payload = payload at hpay ⊢
  rcases hpay with _ | ⟨_, pad, _, rest, hpad, hrest⟩
  cases hrest
  -- Four bytes need no padding.
  have hnone : pad = [] := by
    rw [List.length_append, le32_length] at hpad
    exact List.eq_nil_of_length_eq_zero (Nat.add_left_cancel hpad)
  rw [hnone, List.append_nil, List.append_nil]

/-- A reply of one handle is read as that handle. -/
theorem ref_replied (pl : Place) (handle : UInt32) (io : IoData) {iHandle : UInt32}
    (hhandle : iHandle ≠ 0) :
    ∃ reply, (Parcel.new io).putRef iHandle = some reply ∧
      ∃ p', (pl.parcel handle (reply.sent 0 0 0)).getRef = some (iHandle, p') := by
  have hobj : (PutOp.ref iHandle).isObject = true := decide_eq_true hhandle
  have hsize := object_size _ hobj
  rcases apply_new io (.ref iHandle) (by omega) with ⟨reply, hput, hputs, hclear⟩
  rcases carried_reader pl handle 0 0 0 hputs hclear (delivered_ref hputs hclear hhandle) with
    ⟨hR, hlay⟩
  -- The reply is that one object, from its first byte on.
  rcases layout_last [] _ hlay with ⟨k, hk, hnil, hholds, _⟩
  rw [layout_nil hnil] at hk hholds
  rcases object_reads _ hR _ hobj hholds hk.ge with ⟨p', hget, _⟩
  exact ⟨reply, hput, p', hget⟩

end Frameworks

end ZeusOS
