import ZeusOS.Binder.Looper
import ZeusOS.Binder.Confined
import ZeusOS.Binder.Filling

/-!
# Sending, and Failing to

A call writes one command and reads until an answer to it comes. The descriptor
of the bytes to be written is set up once and handed to the driver on every
turn of the loop; the driver moves `write_consumed` on as it takes them, so no
byte is taken twice. When the call fails its reply is the zeroed record. There
is no room in it and no slot, and its pointers lead nowhere: whatever is called
on it only raises the overflow flag.

A request that did not fit is not sent. A reply that did not fit is: the flag
of the reply is not looked at, and what was written of it goes out as a success.

## Main definitions

* `Advancing`: The driver consumes from where it stopped.
* `spans`, `accepted`: The bytes handed over, and the replies taken.
* `Inert`: A parcel nothing can be read from or written to.

## Theorems

* `failed_inert`: The reply of a failed call.
* `parse_accepted`: What the parser returns zero for.
* `callLoop_sent_once`, `callLoop_returned`: The loop of a call.
* `call_at_most_once`: A call sends once, and fails for good.
* `truncated_iff`: When a truncated message is not passed for a good one.
-/

namespace ZeusOS

namespace Binder

open Foundation.Words

/-- A parcel that nothing can be read from or written to. Its areas are empty,
    so a result means that no memory was touched. -/
structure Inert (p : Parcel) : Prop where
  buf : p.buf = []
  tab : p.tab = []
  get : ∀ op : GetOp, ∃ got, op.apply p = some (got, p.setOverflow) ∧ got.Empty
  put : ∀ op : PutOp, op.apply p = some p.setOverflow
  done : binderDone p = []

/-- The record a failed call zeroes, whatever is noted in its flags. -/
def zeroed (flags : BioFlags) : Parcel := { Parcel.failed with flags }

theorem zeroed_setOverflow (flags : BioFlags) :
    (zeroed flags).setOverflow = zeroed { flags with overflow := true } := rfl

theorem zeroed_get (flags : BioFlags) {size : UInt32} (hsize : ¬ Parcel.alignSize size ≤ 0) :
    (zeroed flags).get size = (none, (zeroed flags).setOverflow) := get_spent rfl hsize

theorem zeroed_getUint32 (flags : BioFlags) :
    (zeroed flags).getUint32 = some (0, (zeroed flags).setOverflow) := by
  rw [Parcel.getUint32, zeroed_get flags (by decide)]

theorem zeroed_getString (flags : BioFlags) {unit : UInt32}
    (hunit : ¬ Parcel.alignSize ((0 + 1) * unit) ≤ 0) :
    (zeroed flags).getString unit = some ((none, 0), (zeroed flags).setOverflow) := by
  rw [Parcel.getString, zeroed_getUint32, zeroed_setOverflow]
  simp only [Option.map_some, zeroed_get _ hunit]
  rfl

theorem stringSegments_pos (unit : UInt32) (str : Option (UInt32 × List UInt8))
    (hbytes : ∀ len bytes, str = some (len, bytes) → 0 < bytes.length) :
    PutOp.stringSegments unit str ≠ [] ∧
      ∀ seg ∈ PutOp.stringSegments unit str, 0 < seg.length := by
  have hword : ∀ w : UInt32, [le32 w] ≠ [] ∧ ∀ seg ∈ [le32 w], 0 < seg.length := by
    intro w
    refine ⟨List.cons_ne_nil _ _, fun seg hseg => ?_⟩
    rw [List.mem_singleton.mp hseg, le32_length]
    decide
  rcases str with _ | ⟨len, bytes⟩
  · exact hword _
  · simp only [PutOp.stringSegments]
    by_cases hlong : len ≥ maxBioSize / unit
    · rw [if_pos hlong]
      exact hword _
    · rw [if_neg hlong]
      refine ⟨List.cons_ne_nil _ _, List.forall_mem_cons.mpr ⟨?_, fun seg hseg => ?_⟩⟩
      · exact (hword len).2 _ (List.mem_singleton_self _)
      · rw [List.mem_singleton.mp hseg]
        exact hbytes len bytes rfl

theorem units_pos (units : List UInt16) : 0 < ((units ++ [0]).flatMap le16).length := by
  rw [units_length]
  exact Nat.mul_pos (by decide) (Nat.succ_pos _)

theorem segments_pos (op : PutOp) : op.segments ≠ [] ∧ ∀ seg ∈ op.segments, 0 < seg.length := by
  cases op with
  | uint32 _ | fd _ | obj _ | ref _ =>
      refine ⟨List.cons_ne_nil _ _, fun seg hseg => ?_⟩
      simp only [PutOp.segments, List.mem_singleton] at hseg
      simp only [hseg, le32_length, flatObject_length, Nat.reduceLT]
  | string8 str =>
      refine stringSegments_pos 1 _ fun len bytes h => ?_
      rcases Option.map_eq_some_iff.mp h with ⟨s, _, hs⟩
      rw [← (Prod.mk.inj hs).2, List.length_append, List.length_singleton]
      exact Nat.succ_pos _
  | string16 str | string16X str =>
      refine stringSegments_pos 2 _ fun len bytes h => ?_
      rcases Option.map_eq_some_iff.mp h with ⟨s, _, hs⟩
      rw [← (Prod.mk.inj hs).2]
      exact units_pos _

theorem zeroed_putSegments (flags : BioFlags) (segs : List (List UInt8)) (hne : segs ≠ [])
    (hsegs : ∀ seg ∈ segs, 0 < seg.length ∧ seg.length + 3 < 2 ^ 31) :
    putSegments segs (zeroed flags) = some (zeroed flags).setOverflow := by
  induction segs generalizing flags with
  | nil => exact absurd rfl hne
  | cons seg segs ih =>
      have hseg := hsegs seg List.mem_cons_self
      have hsize : (UInt32.ofNat seg.length).toNat = seg.length := by
        rw [UInt32.toNat_ofNat']
        omega
      have hspec := alignNat_spec seg.length
      have havail : (zeroed flags).dataAvail < (alignNat (UInt32.ofNat seg.length).toNat : Int) := by
        rw [hsize]
        change (0 : Int) < _
        omega
      rw [putSegments, allocCopy_full _ _ seg (by omega) havail, Option.bind_some]
      -- The flag is up now, and the other pieces find no more room than this one.
      rcases segs with _ | ⟨next, segs⟩
      · rfl
      · exact ih _ (List.cons_ne_nil _ _) fun s hs => hsegs s (List.mem_cons_of_mem _ hs)

theorem zeroed_put (flags : BioFlags) (op : PutOp) :
    op.apply (zeroed flags) = some (zeroed flags).setOverflow := by
  rcases hobj : op.isObject with _ | _
  · rw [apply_eq_putSegments op _ hobj]
    exact zeroed_putSegments flags _ (segments_pos op).1 fun seg hseg =>
      ⟨(segments_pos op).2 seg hseg, segments_small op seg hseg⟩
  · have hobject : ∀ type value, (zeroed flags).bioAllocObj.bind (Parcel.fillObj type value)
        = some (zeroed flags).setOverflow := fun _ _ => rfl
    cases op with
    | uint32 _ | string8 _ | string16 _ | string16X _ =>
        simp only [PutOp.isObject, Bool.false_eq_true] at hobj
    | fd iFd => exact hobject binderTypeFd iFd
    | obj ptr => exact hobject binderTypeBinder ptr
    | ref iHandle =>
        have hhandle : iHandle ≠ 0 := of_decide_eq_true hobj
        simp only [PutOp.apply, Parcel.putRef, if_pos hhandle]
        exact hobject binderTypeHandle iHandle

theorem zeroed_inert (flags : BioFlags) (hshared : flags.shared = false) : Inert (zeroed flags) := by
  refine ⟨rfl, rfl, fun op => ?_, zeroed_put flags, ?_⟩
  · cases op with
    | uint32 => exact ⟨.word 0, by rw [GetOp.apply, zeroed_getUint32]; rfl, rfl⟩
    | string8 =>
        refine ⟨.string8 none 0, ?_, rfl⟩
        rw [GetOp.apply, Parcel.getString8, zeroed_getString flags (by decide)]
        rfl
    | string16 =>
        refine ⟨.string16 none 0, ?_, rfl⟩
        rw [GetOp.apply, Parcel.getString16, zeroed_getString flags (by decide)]
        rfl
    -- There is no slot to look at, so an object is not found.
    | fd | ref => exact ⟨.word 0, rfl, rfl⟩
  · have hflag : ¬ (zeroed flags).flags.shared = true := by
      change ¬ flags.shared = true
      rw [hshared]
      exact Bool.false_ne_true
    rw [binderDone, if_neg hflag]

/-- The reply of a failed call is inert, and stays so once its flag is up. -/
theorem failed_inert : Inert .failed ∧ Inert Parcel.failed.setOverflow ∧
    Parcel.failed.setOverflow.setOverflow = Parcel.failed.setOverflow :=
  ⟨zeroed_inert _ rfl, zeroed_inert _ rfl, rfl⟩

/-- The bytes of sent requests that were handed over, from where to where. -/
def spans (evs : List Event) : List (Sent × Nat × Nat) :=
  evs.filterMap fun
    | .sending t lo hi => some (t, lo, hi)
    | _ => none

/-- The replies that were taken for a waiting call. -/
def accepted (evs : List Event) : List Txn :=
  evs.filterMap fun
    | .reply txn true => some txn
    | _ => none

@[simp] theorem spans_append (evs evs' : List Event) :
    spans (evs ++ evs') = spans evs ++ spans evs' := List.filterMap_append

@[simp] theorem accepted_append (evs evs' : List Event) :
    accepted (evs ++ evs') = accepted evs ++ accepted evs' := List.filterMap_append

@[simp] theorem spans_refEvents (writes : List RefCommand) : spans (refEvents writes) = [] := by
  unfold spans refEvents
  rw [List.filterMap_map]
  exact List.filterMap_eq_nil_iff.mpr fun _ _ => rfl

@[simp] theorem accepted_refEvents (writes : List RefCommand) :
    accepted (refEvents writes) = [] := by
  unfold accepted refEvents
  rw [List.filterMap_map]
  exact List.filterMap_eq_nil_iff.mpr fun _ _ => rfl

variable {σ : Type} {S : Services σ} {mem : Mapping}

@[simp] theorem spans_transactionEvents (txn : Txn) (res : Handled σ) :
    spans (transactionEvents txn res) = [] := by
  unfold transactionEvents
  rw [spans_append]
  change spans (refEvents res.writes) ++ [] = _
  rw [spans_refEvents, List.nil_append]

@[simp] theorem accepted_transactionEvents (txn : Txn) (res : Handled σ) :
    accepted (transactionEvents txn res) = [] := by
  unfold transactionEvents
  rw [accepted_append]
  change accepted (refEvents res.writes) ++ [] = _
  rw [accepted_refEvents, List.nil_append]

/-- How the parser stands in a call: no reply has come, or the first one was
    taken and what is returned is no longer positive. -/
structure Awaiting (mem : Mapping) (evs : List Event) (l : Looper σ) : Prop where
  unsent : spans evs = []
  state : (accepted evs = [] ∧ l.bio = true ∧ l.r ≠ 0) ∨
    ∃ txn, accepted evs = [txn] ∧ l.bio = false ∧ l.r ≤ 0 ∧
      l.data = some (Parcel.bioInitFromTxn mem txn)

theorem awaiting_fail {evs : List Event} {l : Looper σ} (h : Awaiting mem evs l) :
    Awaiting mem evs l.fail := by
  have hne : (-1 : Int) ≠ 0 := by decide
  have hle : (-1 : Int) ≤ 0 := by decide
  refine ⟨h.unsent, ?_⟩
  rcases h.state with ⟨hnone, hbio, _⟩ | ⟨txn, hone, hbio, _, hdata⟩
  · exact Or.inl ⟨hnone, hbio, hne⟩
  · exact Or.inr ⟨txn, hone, hbio, hle, hdata⟩

theorem awaiting_performed {evs evs' : List Event} {l l' : Looper σ} {action : Action}
    (h : Awaiting mem evs l) (hperformed : Performed S mem l action evs' l') :
    Awaiting mem (evs ++ evs') l' := by
  -- Events that are neither leave both lists as they are.
  have hquiet : ∀ (evs' : List Event) (l' : Looper σ), spans evs' = [] → accepted evs' = [] →
      l'.bio = l.bio → l'.r = l.r → l'.data = l.data → Awaiting mem (evs ++ evs') l' := by
    intro evs' l' hspans haccepted hbio hr hdata
    refine ⟨by rw [spans_append, h.unsent, hspans, List.append_nil], ?_⟩
    rw [accepted_append, haccepted, List.append_nil, hbio, hr, hdata]
    exact h.state
  cases hperformed with
  | skip => exact hquiet [] l rfl rfl rfl rfl rfl
  | spawnLooper => exact hquiet _ l rfl rfl rfl rfl rfl
  | transaction txn res _ =>
      exact hquiet _ _ (spans_transactionEvents txn res) (accepted_transactionEvents txn res)
        rfl rfl rfl
  | taken txn hbio =>
      refine ⟨by rw [spans_append, h.unsent]; rfl, Or.inr ⟨txn, ?_, rfl, Int.le_refl 0, rfl⟩⟩
      rcases h.state with ⟨hnone, _, _⟩ | ⟨_, _, hfalse, _⟩
      · rw [accepted_append, hnone]
        rfl
      · rw [hbio] at hfalse
        cases hfalse
  | ignored txn hbio =>
      refine ⟨by rw [spans_append, h.unsent]; rfl, Or.inr ?_⟩
      rcases h.state with ⟨_, htrue, _⟩ | ⟨first, hone, hfalse, _, hdata⟩
      · rw [hbio] at htrue
        cases htrue
      · exact ⟨first, by rw [accepted_append, hone]; rfl, hfalse, Int.le_refl 0, hdata⟩
  | deadBinder cookie writes s _ =>
      exact hquiet _ _ (spans_refEvents writes) (accepted_refEvents writes) rfl rfl rfl
  | failed =>
      rw [List.append_nil]
      exact awaiting_fail h

/-- In a call the parser sends nothing itself, and returns zero for the first
    reply of its read, which is the one it has taken. -/
theorem parse_accepted {reply : Parcel} {ptr : List UInt8} {size : Nat} {s : σ}
    {evs : List Event} {l : Looper σ}
    (h : binderParse S mem (some reply) ptr size s = some (evs, l)) : Awaiting mem evs l := by
  have hone : (1 : Int) ≠ 0 := by decide
  have hstart : Awaiting mem [] (Looper.start (some reply) s) :=
    ⟨rfl, Or.inl ⟨rfl, rfl, hone⟩⟩
  have hrun := parseLoop_invariant (Awaiting mem) (fun _ _ => awaiting_fail)
    (fun _ _ _ _ _ => awaiting_performed) hstart h
  rwa [List.nil_append] at hrun

/-- The driver consumes the bytes of the command from where it stopped, and no
    more than there are: a command word and the forty bytes of a transaction. -/
def Advancing : Nat → List Answer → Prop
  | _, [] => True
  | lo, .failed hi :: answers => lo ≤ hi ∧ hi ≤ 4 + Txn.wireSize ∧ Advancing hi answers
  | lo, .read hi _ _ _ :: answers => lo ≤ hi ∧ hi ≤ 4 + Txn.wireSize ∧ Advancing hi answers

/-- All that is handed over are bytes of this one request, none of them before
    `lo`, and none of them twice. -/
structure SentOnce (request : Sent) (lo : Nat) (evs : List Event) : Prop where
  bytes : ∀ span ∈ spans evs, span.1 = request ∧ lo ≤ span.2.1 ∧ span.2.1 ≤ span.2.2 ∧
    span.2.2 ≤ 4 + Txn.wireSize
  once : (spans evs).Pairwise fun first second => first.2.2 ≤ second.2.1

theorem sentOnce_cons {request : Sent} {lo hi : Nat} {evs₁ evs₂ : List Event} (hlo : lo ≤ hi)
    (hhi : hi ≤ 4 + Txn.wireSize) (hquiet : spans evs₁ = []) (h : SentOnce request hi evs₂) :
    SentOnce request lo (.sending request lo hi :: evs₁ ++ evs₂) := by
  have hspans : spans (.sending request lo hi :: evs₁ ++ evs₂) = (request, lo, hi) :: spans evs₂ := by
    rw [List.cons_append]
    change (request, lo, hi) :: spans (evs₁ ++ evs₂) = _
    rw [spans_append, hquiet, List.nil_append]
  refine ⟨fun span hspan => ?_, ?_⟩
  · rw [hspans] at hspan
    rcases List.mem_cons.mp hspan with rfl | hspan
    · exact ⟨rfl, Nat.le_refl lo, hlo, hhi⟩
    · rcases h.bytes span hspan with ⟨hsent, hfrom, hto, hend⟩
      exact ⟨hsent, Nat.le_trans hlo hfrom, hto, hend⟩
  · rw [hspans]
    exact List.Pairwise.cons (fun span hspan => (h.bytes span hspan).2.1) h.once

theorem sentOnce_nil (request : Sent) (lo : Nat) : SentOnce request lo [] :=
  ⟨fun _ hspan => absurd hspan List.not_mem_nil, List.Pairwise.nil⟩

/-- The loop of a call hands every byte of its request over once at most. -/
theorem callLoop_sent_once {request : Sent} {answers : List Answer} {lo : Nat} {reply : Parcel}
    {s s' : σ} {evs : List Event} {res : CallResult} (hadvancing : Advancing lo answers)
    (h : callLoop S request answers lo reply s = some (evs, res, s')) :
    SentOnce request lo evs := by
  induction answers generalizing lo reply s evs with
  | nil =>
      simp only [callLoop, Option.some.injEq, Prod.mk.injEq] at h
      rw [← h.1]
      exact sentOnce_nil request lo
  | cons a answers ih =>
      cases a with
      | failed hi =>
          rcases hadvancing with ⟨hlo, hhi, _⟩
          simp only [callLoop, Option.some.injEq, Prod.mk.injEq] at h
          rw [← h.1]
          have hnone : spans [] = [] := rfl
          exact sentOnce_cons hlo hhi hnone (sentOnce_nil request hi)
      | read hi mem readbuf size =>
          rcases hadvancing with ⟨hlo, hhi, hrest⟩
          simp only [callLoop, Option.bind_eq_some_iff, Prod.exists] at h
          rcases h with ⟨evs₁, l, hparse, h⟩
          have hquiet := (parse_accepted hparse).unsent
          have hlast := sentOnce_cons hlo hhi hquiet (sentOnce_nil request hi)
          rw [List.append_nil] at hlast
          by_cases hr : l.r = 0
          · rw [if_pos hr, Option.some.injEq, Prod.mk.injEq] at h
            rw [← h.1]
            exact hlast
          · rw [if_neg hr] at h
            by_cases hneg : l.r < 0
            · rw [if_pos hneg, Option.some.injEq, Prod.mk.injEq] at h
              rw [← h.1]
              exact hlast
            · -- The next turn hands over what comes behind.
              rw [if_neg hneg, Option.map_eq_some_iff] at h
              rcases h with ⟨⟨evs₂, res₂⟩, hcall, heq⟩
              rw [Prod.mk.injEq] at heq
              rcases heq with ⟨rfl, rfl⟩
              exact sentOnce_cons hlo hhi hquiet (ih hrest hcall)

/-- A call that returned zero: its last read was parsed with result zero, and
    the reply describes the one reply that was ever taken. -/
def RepliedBy (S : Services σ) (request : Sent) (answers : List Answer) (evs : List Event)
    (reply : Parcel) (s : σ) : Prop :=
  ∃ pre rest lo hi mem readbuf size reply₀ s₀ evs₁ evs₂ l txn,
    answers = pre ++ .read hi mem readbuf size :: rest ∧
      evs = evs₁ ++ .sending request lo hi :: evs₂ ∧
      binderParse S mem (some reply₀) readbuf size s₀ = some (evs₂, l) ∧ l.r = 0 ∧ l.state = s ∧
      accepted evs = [txn] ∧ reply = Parcel.bioInitFromTxn mem txn

/-- A turn that brought no reply goes before a call that returned zero. -/
theorem repliedBy_cons {request : Sent} {a : Answer} {answers : List Answer}
    {evs evs' : List Event} {reply : Parcel} {s : σ} (hnone : accepted evs = [])
    (h : RepliedBy S request answers evs' reply s) :
    RepliedBy S request (a :: answers) (evs ++ evs') reply s := by
  rcases h with ⟨pre, rest, lo, hi, mem, readbuf, size, reply₀, s₀, evs₁, evs₂, l, txn, rfl, rfl,
    hparse, hr, hs, hone, hreply⟩
  refine ⟨a :: pre, rest, lo, hi, mem, readbuf, size, reply₀, s₀, evs ++ evs₁, evs₂, l, txn, rfl,
    (List.append_assoc _ _ _).symm, hparse, hr, hs, ?_, hreply⟩
  rw [accepted_append, hnone, List.nil_append, hone]

/-- How the loop of a call ends, if it does. -/
theorem callLoop_returned {request : Sent} {answers : List Answer} {lo : Nat} {reply : Parcel}
    {s s' : σ} {evs : List Event} {res : CallResult}
    (h : callLoop S request answers lo reply s = some (evs, res, s')) :
    res = .waiting ∨ res = .returned (-1) .failed ∨
      ∃ reply', res = .returned 0 reply' ∧ RepliedBy S request answers evs reply' s' := by
  induction answers generalizing lo reply s evs with
  | nil =>
      simp only [callLoop, Option.some.injEq, Prod.mk.injEq] at h
      exact Or.inl h.2.1.symm
  | cons a answers ih =>
      cases a with
      | failed hi =>
          simp only [callLoop, Option.some.injEq, Prod.mk.injEq] at h
          exact Or.inr (Or.inl h.2.1.symm)
      | read hi mem readbuf size =>
          simp only [callLoop, Option.bind_eq_some_iff, Prod.exists] at h
          rcases h with ⟨evs₁, l, hparse, h⟩
          have hstate := (parse_accepted hparse).state
          by_cases hr : l.r = 0
          · -- Zero is returned for a reply only, and the first of the read was taken.
            rcases hstate with ⟨_, _, hne⟩ | ⟨txn, hone, _, _, hdata⟩
            · exact absurd hr hne
            · rw [if_pos hr, hdata, Option.some.injEq, Prod.mk.injEq, Prod.mk.injEq] at h
              rcases h with ⟨rfl, rfl, rfl⟩
              exact Or.inr (Or.inr ⟨_, rfl, [], answers, lo, hi, mem, readbuf, size, reply, s, [],
                evs₁, l, txn, rfl, rfl, hparse, hr, rfl, hone, rfl⟩)
          · rw [if_neg hr] at h
            by_cases hneg : l.r < 0
            · rw [if_pos hneg, Option.some.injEq, Prod.mk.injEq, Prod.mk.injEq] at h
              exact Or.inr (Or.inl h.2.1.symm)
            · rw [if_neg hneg, Option.map_eq_some_iff] at h
              rcases h with ⟨⟨evs₂, res₂⟩, hcall, heq⟩
              rw [Prod.mk.injEq] at heq
              rcases heq with ⟨rfl, rfl⟩
              -- A positive result means that this read brought no reply.
              have hnone : accepted (.sending request lo hi :: evs₁) = [] := by
                rcases hstate with ⟨hnone, _, _⟩ | ⟨_, _, _, hle, _⟩
                · exact hnone
                · omega
              rcases ih hcall with hwait | hfailed | ⟨reply', hres, hreplied⟩
              · exact Or.inl hwait
              · exact Or.inr (Or.inl hfailed)
              · exact Or.inr (Or.inr ⟨reply', hres, repliedBy_cons hnone hreplied⟩)

/-- A call hands the driver the bytes of one request, each once at most, and
    none at all of a request that did not fit. If it returns zero, the read
    before that was parsed with result zero and the reply is the one that was
    taken. If it returns anything else, that is -1, and nothing can be read from
    its reply, written to it, or given back for it. -/
theorem call_at_most_once {msg reply : Parcel} {target code flags : UInt32}
    {answers : List Answer} {s s' : σ} {evs : List Event} {res : CallResult}
    (hadvancing : Advancing 0 answers)
    (h : binderCall S msg reply target code flags answers s = some (evs, res, s')) :
    SentOnce (msg.sent target code flags) 0 evs ∧
      (msg.flags.overflow = true → evs = [] ∧ res = .returned (-1) .failed) ∧
      (∀ reply', res = .returned 0 reply' →
        RepliedBy S (msg.sent target code flags) answers evs reply' s') ∧
      ∀ r reply', res = .returned r reply' → r ≠ 0 →
        r = -1 ∧ Inert reply' ∧ Inert reply'.setOverflow ∧
          reply'.setOverflow.setOverflow = reply'.setOverflow := by
  have hminus : (-1 : Int32) ≠ 0 := by decide
  have hinert : ∀ r reply', CallResult.returned (-1) .failed = .returned r reply' → r ≠ 0 →
      r = -1 ∧ Inert reply' ∧ Inert reply'.setOverflow ∧
        reply'.setOverflow.setOverflow = reply'.setOverflow := by
    intro r reply' hres _
    rw [CallResult.returned.injEq] at hres
    rw [← hres.1, ← hres.2]
    exact ⟨rfl, failed_inert⟩
  unfold binderCall at h
  by_cases hoverflow : msg.flags.overflow = true
  · rw [if_pos hoverflow, Option.some.injEq, Prod.mk.injEq, Prod.mk.injEq] at h
    rcases h with ⟨rfl, rfl, rfl⟩
    refine ⟨sentOnce_nil _ 0, fun _ => ⟨rfl, rfl⟩, fun reply' hres => ?_, hinert⟩
    rw [CallResult.returned.injEq] at hres
    exact absurd hres.1 hminus
  · rw [if_neg hoverflow] at h
    refine ⟨callLoop_sent_once hadvancing h, fun hov => absurd hov hoverflow, ?_⟩
    rcases callLoop_returned h with rfl | rfl | ⟨reply', rfl, hreplied⟩
    · refine ⟨fun reply' hres => ?_, fun r reply' hres => ?_⟩
      · cases hres
      · cases hres
    · refine ⟨fun reply' hres => ?_, hinert⟩
      rw [CallResult.returned.injEq] at hres
      exact absurd hres.1 hminus
    · refine ⟨fun reply₁ hres => ?_, fun r reply₁ hres hne => ?_⟩
      · rw [CallResult.returned.injEq] at hres
        rwa [← hres.2]
      · rw [CallResult.returned.injEq] at hres
        exact absurd hres.1.symm hne

/-- A call that is told to wait first, and then of a failure. -/
theorem call_at_most_once_failed :
    ∃ evs s', binderCall quietServices (Parcel.new sampleIo) (Parcel.new sampleIo) 1 2 0
        [.read 44 ⟨fun _ => [], fun _ => []⟩ (encodeAll [.noop]) 4,
          .read 44 ⟨fun _ => [], fun _ => []⟩ (encodeAll [.deadReply]) 4] ()
        = some (evs, .returned (-1) .failed, s') ∧
      SentOnce ((Parcel.new sampleIo).sent 1 2 0) 0 evs ∧ Inert .failed := by
  have hcall : ∃ evs, binderCall quietServices (Parcel.new sampleIo) (Parcel.new sampleIo) 1 2 0
      [.read 44 ⟨fun _ => [], fun _ => []⟩ (encodeAll [.noop]) 4,
        .read 44 ⟨fun _ => [], fun _ => []⟩ (encodeAll [.deadReply]) 4] ()
      = some (evs, .returned (-1) .failed, ()) := ⟨_, rfl⟩
  rcases hcall with ⟨evs, hcall⟩
  have hadvancing : Advancing 0
      [.read 44 ⟨fun _ => [], fun _ => []⟩ (encodeAll [.noop]) 4,
        .read 44 ⟨fun _ => [], fun _ => []⟩ (encodeAll [.deadReply]) 4] := by
    simp only [Advancing, Txn.wireSize]
    decide
  rcases call_at_most_once hadvancing hcall with ⟨honce, _, _, hfailed⟩
  exact ⟨evs, (), hcall, honce, (hfailed _ _ rfl (by decide)).2.1⟩

/-- What a handler that returned zero wrote is sent as a success, unless the
    other side is told that it did not fit. -/
theorem reply_flags {l l' : Looper σ} {txn : Txn} {res : Handled σ} {evs : List Event}
    (hres : onTransact S txn txn (Parcel.bioInitFromTxn mem txn)
      (Parcel.new (S.newIoData l.state)) l.state = some res)
    (hstatus : res.status = 0) (h : perform S mem l (.transaction txn) = some (evs, l')) :
    repliesOf evs = [res.reply.sent 0 0 0] := by
  simp only [perform, hres, Option.map_some, Option.some.injEq, Prod.mk.injEq] at h
  rw [← h.1, repliesOf_transactionEvents, replyTxn, hstatus, if_neg (fun hne => hne rfl)]

/-- A request that did not fit is not sent, whatever was put into it. A reply of
    a handler that returned zero is sent as a success whether or not it fitted,
    so it is never passed for a good one only if the sizes of what was put into
    it say that it fits. -/
theorem truncated_iff {io : IoData} {asked answered : List PutOp} {msg : Parcel}
    {l l' : Looper σ} {txn : Txn} {res : Handled σ} {evs : List Event}
    (hasked : puts asked (Parcel.new io) = some msg)
    (hres : onTransact S txn txn (Parcel.bioInitFromTxn mem txn)
      (Parcel.new (S.newIoData l.state)) l.state = some res)
    (hanswered : puts answered (Parcel.new (S.newIoData l.state)) = some res.reply)
    (hstatus : res.status = 0) (h : perform S mem l (.transaction txn) = some (evs, l')) :
    (¬ ((asked.map PutOp.wireSize).sum ≤ 1008 ∧ asked.countP PutOp.isObject ≤ 4) →
        ∀ reply target code flags answers s, binderCall S msg reply target code flags answers s
          = some ([], .returned (-1) .failed, s)) ∧
      ((res.reply.flags.overflow = true → ∀ t ∈ repliesOf evs, t.flags = tfStatusCode) ↔
        (answered.map PutOp.wireSize).sum ≤ 1008 ∧ answered.countP PutOp.isObject ≤ 4) := by
  rw [reply_flags hres hstatus h, ← clear_iff_wireSize hanswered, ← clear_iff_wireSize hasked]
  refine ⟨fun hov reply target code flags answers s => ?_, ?_⟩
  · rw [binderCall, if_pos ((Bool.not_eq_false _).mp hov)]
  have hplain : (res.reply.sent 0 0 0).flags ≠ tfStatusCode := by
    change (0 : UInt32) ≠ tfStatusCode
    decide
  constructor
  · intro hflags
    by_contra hov
    rw [Bool.not_eq_false] at hov
    exact hplain (hflags hov _ (List.mem_singleton_self _))
  · intro hclear hov
    rw [hclear] at hov
    cases hov

/-- Services whose handlers write these values into the reply and return
    zero. -/
def writingServices (ops : List PutOp) : Services Unit :=
  { newIoData := fun _ => sampleIo
    bnBinder := fun _ _ _ reply s => (puts ops reply).map fun reply =>
      { status := 0, reply, writes := [], state := s }
    bnServiceManager := fun _ _ reply s => (puts ops reply).map fun reply =>
      { status := 0, reply, writes := [], state := s }
    binderDeath := fun _ s => some ([], s) }

theorem writingServices_answer {ops : List PutOp} {reply : Parcel}
    (hputs : puts ops (Parcel.new sampleIo) = some reply) (mem : Mapping) (txn : Txn) :
    onTransact (writingServices ops) txn txn (Parcel.bioInitFromTxn mem txn)
        (Parcel.new ((writingServices ops).newIoData ())) ()
      = some { status := 0, reply, writes := [], state := () } := by
  unfold onTransact
  by_cases htarget : txn.target ≠ 0
  · rw [if_pos htarget]
    simp only [writingServices, hputs, Option.map_some]
  · rw [if_neg htarget]
    simp only [writingServices, hputs, Option.map_some]

theorem writingServices_perform {ops : List PutOp} {reply : Parcel}
    (hputs : puts ops (Parcel.new sampleIo) = some reply) (mem : Mapping) (txn : Txn) :
    ∃ evs l', perform (writingServices ops) mem (Looper.start none ()) (.transaction txn)
      = some (evs, l') := by
  have hres := writingServices_answer hputs mem txn
  simp only [perform, Looper.start, hres, Option.map_some]
  exact ⟨_, _, rfl⟩

/-- A word, a string and five objects, of which the last does not fit, and a
    word behind it that would. -/
def overfull : List PutOp :=
  [.uint32 7, .string8 (some sampleName), .obj 1, .obj 2, .obj 3, .obj 4, .obj 5, .uint32 8]

/-- As a request they are not sent, and as a reply they go out as a success. -/
theorem truncated_iff_overfull :
    ∃ reply evs l', puts overfull (Parcel.new sampleIo) = some reply ∧
      (∀ reply' target code flags answers s, binderCall (writingServices overfull) reply reply' target
        code flags answers s = some ([], .returned (-1) .failed, s)) ∧
      perform (writingServices overfull) ⟨fun _ => [], fun _ => []⟩ (Looper.start none ())
        (.transaction sampleTxn) = some (evs, l') ∧
      ¬ (reply.flags.overflow = true → ∀ t ∈ repliesOf evs, t.flags = tfStatusCode) := by
  rcases writer_puts overfull _ (writer_new sampleIo) with ⟨reply, hputs, _, _⟩
  rcases writingServices_perform hputs ⟨fun _ => [], fun _ => []⟩ sampleTxn with
    ⟨evs, l', hperform⟩
  have hiff := truncated_iff hputs (writingServices_answer hputs _ _) hputs rfl hperform
  have hunfit : ¬ ((overfull.map PutOp.wireSize).sum ≤ 1008 ∧ overfull.countP PutOp.isObject ≤ 4) :=
    fun hfits => absurd hfits.2 (by decide)
  exact ⟨reply, evs, l', hputs, hiff.1 hunfit, hperform, fun h => hunfit (hiff.2.mp h)⟩

/-- A reply of five objects goes out as a success with four of them listed. -/
theorem truncated_delivered : ¬ ∀ (S : Services Unit) (mem : Mapping) (l l' : Looper Unit)
    (txn : Txn) (res : Handled Unit) (evs : List Event) (answered : List PutOp),
    onTransact S txn txn (Parcel.bioInitFromTxn mem txn) (Parcel.new (S.newIoData l.state)) l.state
        = some res →
      puts answered (Parcel.new (S.newIoData l.state)) = some res.reply → res.status = 0 →
        perform S mem l (.transaction txn) = some (evs, l') →
          res.reply.flags.overflow = true → ∀ t ∈ repliesOf evs, t.flags = tfStatusCode := by
  intro h
  rcases writer_puts [.obj 1, .obj 2, .obj 3, .obj 4, .obj 5] _ (writer_new sampleIo) with
    ⟨reply, hputs, _, _⟩
  rcases writingServices_perform hputs ⟨fun _ => [], fun _ => []⟩ sampleTxn with
    ⟨evs, l', hperform⟩
  have hres := writingServices_answer hputs ⟨fun _ => [], fun _ => []⟩ sampleTxn
  have hover : reply.flags.overflow = true := by
    by_contra hclear
    have hfits := (puts_clear_iff hputs).mp (by simpa only [Bool.not_eq_true] using hclear)
    exact absurd hfits.2 (by decide)
  have hflags := h _ _ (Looper.start none ()) _ _ _ _ _ hres hputs rfl hperform hover
  rw [reply_flags hres rfl hperform] at hflags
  exact absurd (hflags _ (List.mem_singleton_self _)) (by
    change (0 : UInt32) ≠ tfStatusCode
    decide)

end Binder

end ZeusOS
