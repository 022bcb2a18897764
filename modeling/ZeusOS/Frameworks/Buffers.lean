import ZeusOS.Binder.Looper
import ZeusOS.Foundation.Custody
import ZeusOS.Frameworks.Proxies

/-!
# Transaction Buffers

Every buffer the driver hands out comes back exactly once. A transaction's
buffer is given back by the reply, right after the handler returns; a reply's
buffer is given back by the proxy, once it has read the value it wanted.

A thread never has two buffers at a time. While it waits in a call it may be
given transactions to handle, but each of those is received, handled and given
back before the parser looks at the next command, and the reply it waits for
comes last in its read. So a thread's log keeps the discipline of `Custody`,
and how the threads interleave does not matter.

The proof follows the layers of the code: what one command does, what a read
does, what the loop of a call does, what a method does. Each is a run of the
discipline that starts with nothing held. Only one of them can end otherwise: a
call that returns zero holds the buffer its reply points into.

## Main definitions

* `phase`: What an event means for the custody of a buffer.
* `Answer.Proper`: What the driver is trusted to deliver.
* `Activity`, `runThread`: The life of a thread.

## Theorems

* `execute_idle`: Commands other than replies leave nothing held.
* `execute_call`: A read of a call ends with the reply's buffer, if any.
* `callLoop_custody`, `proxy_custody`: The call and the method around it.
* `runThread_custody`: The whole thread.
* `buffers_freed_once`: Every buffer is given back exactly once.
-/

namespace ZeusOS

namespace Frameworks

open Foundation Foundation.Runs Foundation.Custody Binder

/-- What an event means for the custody of a buffer. A reply counts as received
    whether or not anyone waits for it. -/
def phase : Event → Option (Phase × UInt32)
  | .transaction txn => some (.received, txn.buffer)
  | .reply txn _ => some (.received, txn.buffer)
  | .handled txn _ _ => some (.finished, txn.buffer)
  | .replyRead buffer => some (.finished, buffer)
  | .wrote (.freeBuffer buffer) => some (.returned, buffer)
  | _ => none

/-- A thread's custody after some events. -/
def custody (h : Hold UInt32) (evs : List Event) : Option (Hold UInt32) :=
  run (Custody.step phase) h evs

theorem custody_append (h : Hold UInt32) (evs evs' : List Event) :
    custody h (evs ++ evs') = (custody h evs).bind fun h' => custody h' evs' := run_append _ _ _ _

/-- An event that is about no buffer changes nothing. -/
theorem custody_cons_none (h : Hold UInt32) (e : Event) (evs : List Event)
    (hphase : phase e = none) : custody h (e :: evs) = custody h evs := by
  unfold custody
  rw [run_cons, Custody.step, hphase]
  rfl

theorem custody_refEvents (h : Hold UInt32) (writes : List RefCommand) :
    custody h (refEvents writes) = some h := by
  induction writes with
  | nil => rfl
  | cons c writes ih =>
      have hcons : refEvents (c :: writes) = .wrote (.ref c) :: refEvents writes := rfl
      rw [hcons, custody_cons_none _ _ _ rfl, ih]

variable {σ : Type} {S : Services σ} {mem : Mapping}

/-- A transaction is received, handled and given back. -/
theorem custody_transaction (txn : Txn) (res : Handled σ) :
    custody .idle (transactionEvents txn res) = some .idle := by
  have hreceived : ∀ evs, custody .idle (.transaction txn :: evs)
      = custody (.inUse txn.buffer) evs := fun _ => rfl
  -- The reply is written behind the command that gives the buffer back.
  have hanswered : custody (.inUse txn.buffer) (.handled txn res.status res.reply ::
      (binderSendReply res.reply txn.buffer res.status).map .wrote) = some .idle := by
    simp only [custody, binderSendReply, List.map_cons, List.map_nil, run_cons, run_nil,
      Custody.step, phase, Hold.next, if_true, Option.bind_some]
  unfold transactionEvents
  rw [List.cons_append, hreceived, custody_append, custody_refEvents, Option.bind_some, hanswered]

/-- Every action but a reply leaves nothing held. -/
theorem performed_idle {l l' : Looper σ} {action : Action} {evs : List Event}
    (h : Performed S mem l action evs l') (hnoreply : ∀ txn, action ≠ .reply txn) :
    custody .idle evs = some .idle ∧ l'.bio = l.bio ∧ (l'.r = l.r ∨ l'.r = -1) := by
  cases h with
  | skip => exact ⟨rfl, rfl, Or.inl rfl⟩
  | spawnLooper => exact ⟨rfl, rfl, Or.inl rfl⟩
  | transaction txn res _ => exact ⟨custody_transaction txn res, rfl, Or.inl rfl⟩
  | taken txn _ => exact absurd rfl (hnoreply txn)
  | ignored txn _ => exact absurd rfl (hnoreply txn)
  -- References are no business of the buffers.
  | deadBinder cookie writes s _ =>
      refine ⟨?_, rfl, Or.inl rfl⟩
      rw [custody_cons_none _ _ _ rfl, custody_refEvents]
  | failed => exact ⟨rfl, rfl, Or.inr rfl⟩

theorem action_ne_reply {c : Return} {action : Action} (haction : c.action = some action)
    (h : ∀ txn, c ≠ .reply txn) (txn : Txn) : action ≠ .reply txn := by
  cases c with
  | reply txn' => exact absurd rfl (h txn')
  | _ =>
      cases haction <;> simp only [ne_eq, reduceCtorEq, not_false_eq_true]

/-- Commands that are known and no replies leave nothing held. -/
theorem execute_idle {cs : List Return} {l l' : Looper σ} {evs : List Event}
    (hknown : ∀ c ∈ cs, c.action.isSome = true) (hnoreply : ∀ c ∈ cs, ∀ txn, c ≠ .reply txn)
    (h : execute S mem cs l = some (evs, l')) : custody .idle evs = some .idle := by
  induction cs generalizing l evs with
  | nil =>
      simp only [execute, Option.some.injEq, Prod.mk.injEq] at h
      rw [← h.1]
      rfl
  | cons c cs ih =>
      rcases Option.isSome_iff_exists.mp (hknown c List.mem_cons_self) with ⟨action, haction⟩
      rcases execute_cons haction h with ⟨evs₁, evs₂, l₁, hperform, hrest, rfl⟩
      have hfirst := performed_idle (perform_cases hperform)
        (action_ne_reply haction (hnoreply c List.mem_cons_self))
      rw [custody_append, hfirst.1, Option.bind_some]
      exact ih (fun c hc => hknown c (List.mem_cons_of_mem _ hc))
        (fun c hc => hnoreply c (List.mem_cons_of_mem _ hc)) hrest

/-- A read of a waiting call either brings no reply, and nothing is held, or
    ends with one, and its buffer is. -/
theorem execute_call {cs : List Return} {l l' : Looper σ} {evs : List Event}
    (hknown : ∀ c ∈ cs, c.action.isSome = true)
    (hnoreply : ∀ c ∈ cs.dropLast, ∀ txn, c ≠ .reply txn)
    (hbio : l.bio = true) (hr : l.r ≠ 0) (h : execute S mem cs l = some (evs, l')) :
    (l'.r ≠ 0 ∧ custody .idle evs = some .idle) ∨
      ∃ txn, l'.r = 0 ∧ l'.data = some (Parcel.bioInitFromTxn mem txn) ∧
        custody .idle evs = some (.inUse txn.buffer) := by
  induction cs generalizing l evs with
  | nil =>
      simp only [execute, Option.some.injEq, Prod.mk.injEq] at h
      rcases h with ⟨rfl, rfl⟩
      exact Or.inl ⟨hr, rfl⟩
  | cons c cs ih =>
      rcases Option.isSome_iff_exists.mp (hknown c List.mem_cons_self) with ⟨action, haction⟩
      rcases execute_cons haction h with ⟨evs₁, evs₂, l₁, hperform, hrest, rfl⟩
      have hcases := perform_cases hperform
      by_cases hreply : ∃ txn, action = .reply txn
      · -- The reply is the last command, so nothing follows.
        rcases hreply with ⟨txn, rfl⟩
        have hlast : cs = [] := by
          by_contra hne
          rw [List.dropLast_cons_of_ne_nil hne] at hnoreply
          exact absurd rfl (action_ne_reply haction (hnoreply c List.mem_cons_self) txn)
        subst hlast
        simp only [execute, Option.some.injEq, Prod.mk.injEq] at hrest
        rcases hrest with ⟨rfl, rfl⟩
        cases hcases with
        | taken _ _ => exact Or.inr ⟨txn, rfl, rfl, rfl⟩
        | ignored _ hidle =>
            rw [hidle] at hbio
            cases hbio
      · -- Anything else leaves nothing held, and the call waits on.
        have hfirst := performed_idle hcases fun txn hc => hreply ⟨txn, hc⟩
        have hdrop : ∀ c' ∈ cs.dropLast, ∀ txn, c' ≠ .reply txn := by
          intro c' hc'
          refine hnoreply c' ?_
          rcases List.eq_nil_or_concat cs with rfl | ⟨cs', last, rfl⟩
          · exact absurd hc' List.not_mem_nil
          · rw [List.dropLast_cons_of_ne_nil (by simp)]
            exact List.mem_cons_of_mem _ hc'
        have hr₁ : l₁.r ≠ 0 := by
          rcases hfirst.2.2 with heq | heq
          · rw [heq]
            exact hr
          · rw [heq]
            decide
        rw [custody_append, hfirst.1, Option.bind_some]
        exact ih (fun c hc => hknown c (List.mem_cons_of_mem _ hc)) hdrop
          (hfirst.2.1.trans hbio) hr₁ hrest

/-- What the driver is trusted to deliver: complete commands the parser knows,
    and a reply only to a waiting call and as the last command of its read. An
    `ioctl` may fail at any time. -/
inductive Proper (waiting : Bool) : Answer → Prop
  | failed (writeConsumed : Nat) : Proper waiting (.failed writeConsumed)
  | read (writeConsumed : Nat) (r : Read) (hknown : ∀ c ∈ r.commands, c.action.isSome = true)
      (hreply : ∀ c ∈ (if waiting then r.commands.dropLast else r.commands),
        ∀ txn, c ≠ .reply txn) : Proper waiting (r.answer writeConsumed)

/-- The loop of a call holds nothing when it waits or fails, and the buffer of
    its reply when it returns zero. -/
theorem callLoop_custody {request : Sent} {answers : List Answer} {lo : Nat} {reply : Parcel}
    {s s' : σ} {evs : List Event} {res : CallResult} (hproper : ∀ a ∈ answers, Proper true a)
    (h : callLoop S request answers lo reply s = some (evs, res, s')) :
    (custody .idle evs = some .idle ∧ (res = .waiting ∨ res = .returned (-1) .failed)) ∨
      ∃ reply', res = .returned 0 reply' ∧ reply'.flags.shared = true ∧
        custody .idle evs = some (.inUse reply'.data0) := by
  induction answers generalizing lo reply s evs with
  | nil =>
      simp only [callLoop, Option.some.injEq, Prod.mk.injEq] at h
      rcases h with ⟨rfl, rfl, _⟩
      exact Or.inl ⟨rfl, Or.inl rfl⟩
  | cons a answers ih =>
      cases hproper a List.mem_cons_self with
      | failed hi =>
          simp only [callLoop, Option.some.injEq, Prod.mk.injEq] at h
          rcases h with ⟨rfl, rfl, _⟩
          exact Or.inl ⟨rfl, Or.inr rfl⟩
      | read hi r hknown hreply =>
          simp only [Read.answer, callLoop, binderParse_encode, Option.bind_eq_some_iff,
            Prod.exists] at h
          rcases h with ⟨evs₁, l, hexec, h⟩
          have hsent : custody .idle (.sending request lo hi :: evs₁) = custody .idle evs₁ :=
            custody_cons_none _ _ _ rfl
          rcases execute_call hknown hreply rfl (show (1 : Int) ≠ 0 by decide) hexec with
            ⟨hr, hidle⟩ | ⟨txn, hr, hdata, hinUse⟩
          · rw [if_neg hr] at h
            by_cases hfailed : l.r < 0
            · -- The read said that there will be no reply.
              rw [if_pos hfailed] at h
              simp only [Option.some.injEq, Prod.mk.injEq] at h
              rcases h with ⟨rfl, rfl, _⟩
              exact Or.inl ⟨hsent.trans hidle, Or.inr rfl⟩
            · -- No reply yet: the call goes round again.
              rw [if_neg hfailed, Option.map_eq_some_iff] at h
              rcases h with ⟨⟨evs₂, res₂⟩, hrest, heq⟩
              simp only [Prod.mk.injEq] at heq
              rcases heq with ⟨rfl, rfl⟩
              rw [custody_append, hsent, hidle, Option.bind_some]
              exact ih (fun a ha => hproper a (List.mem_cons_of_mem _ ha)) hrest
          · -- The reply is there, and its buffer goes to the caller.
            rw [if_pos hr, hdata] at h
            simp only [Option.getD_some, Option.some.injEq, Prod.mk.injEq] at h
            rcases h with ⟨rfl, rfl, _⟩
            exact Or.inr ⟨_, rfl, rfl, hsent.trans hinUse⟩

/-- Giving a reply's buffer back ends its custody. -/
theorem custody_binderDone (reply : Parcel) (hshared : reply.flags.shared = true) :
    custody (.done reply.data0) (binderDone reply) = some .idle := by
  rw [binderDone, if_pos hshared]
  simp only [custody, run_cons, run_nil, Custody.step, phase, Hold.next, if_true, Option.bind_some]

/-- So does a call, which fails at once if its request does not fit. -/
theorem binderCall_custody {msg reply : Parcel} {target code flags : UInt32}
    {answers : List Answer} {s s' : σ} {evs : List Event} {res : CallResult}
    (hproper : ∀ a ∈ answers, Proper true a)
    (h : binderCall S msg reply target code flags answers s = some (evs, res, s')) :
    (custody .idle evs = some .idle ∧ (res = .waiting ∨ res = .returned (-1) .failed)) ∨
      ∃ reply', res = .returned 0 reply' ∧ reply'.flags.shared = true ∧
        custody .idle evs = some (.inUse reply'.data0) := by
  unfold binderCall at h
  -- A request that does not fit is not sent, so no buffer comes back either.
  by_cases hoverflow : msg.flags.overflow = true
  · rw [if_pos hoverflow] at h
    simp only [Option.some.injEq, Prod.mk.injEq] at h
    rcases h with ⟨rfl, rfl, _⟩
    exact Or.inl ⟨rfl, Or.inr rfl⟩
  · rw [if_neg hoverflow] at h
    exact callLoop_custody hproper h

/-- A proxy method holds nothing when it returns, nor while it waits. -/
theorem proxy_custody {P : Proxy} {mTargetHandle : UInt32} {msgIo replyIo : IoData}
    {answers : List Answer} {s s' : σ} {evs : List Event} {res : ProxyResult}
    (hproper : ∀ a ∈ answers, Proper true a)
    (h : P.call S mTargetHandle msgIo replyIo answers s = some (evs, res, s')) :
    custody .idle evs = some .idle := by
  simp only [Proxy.call, Option.bind_eq_some_iff, Prod.exists] at h
  rcases h with ⟨msg, _, evs₁, res₁, s₁, hcall, h⟩
  -- A call that waits or fails has left nothing in hand, and nothing is read.
  rcases binderCall_custody hproper hcall with
    ⟨hidle, rfl | rfl⟩ | ⟨reply, rfl, hshared, hinUse⟩
  · simp only [Option.some.injEq, Prod.mk.injEq] at h
    rw [← h.1]
    exact hidle
  · have hminus : (-1 : Int32) ≠ 0 := by decide
    simp only [if_pos hminus, Option.some.injEq, Prod.mk.injEq] at h
    rw [← h.1]
    exact hidle
  · -- The getter moves the cursor, but the parcel stays the same buffer's.
    simp only [ne_eq, not_true, if_false, Option.map_eq_some_iff, Prod.exists, Prod.mk.injEq] at h
    rcases h with ⟨value, reply', hget, rfl, _⟩
    have hsame := P.same reply value reply' hget
    have hread : ∀ evs, custody (.inUse reply.data0) (.replyRead reply.data0 :: evs)
        = custody (.done reply.data0) evs := by
      intro evs
      simp only [custody, run_cons, Custody.step, phase, Hold.next, if_true, Option.bind_some]
    rw [List.append_assoc, List.cons_append, custody_append, hinUse, Option.bind_some, hread,
      custody_append, custody_refEvents, Option.bind_some, ← hsame.data0]
    exact custody_binderDone reply' (hsame.shared.trans hshared)

/-- What a thread does next: a proxy method, or one read of a looper. -/
inductive Activity where
  | proxy (P : Proxy) (mTargetHandle : UInt32) (msgIo replyIo : IoData) (answers : List Answer)
  | looperRead (answer : Answer)

/-- Do it, and say whether the thread is left waiting. -/
def Activity.run (S : Services σ) : Activity → σ → Option (List Event × Bool × σ)
  | proxy P mTargetHandle msgIo replyIo answers, s =>
    (P.call S mTargetHandle msgIo replyIo answers s).map fun (evs, res, s) =>
      (evs, res = .waiting, s)
  | looperRead (.failed _), s => some ([], false, s)
  | looperRead (.read _ mem readbuf size), s =>
    (binderParse S mem none readbuf size s).map fun (evs, l) => (evs, false, l.state)

/-- Only a call has anyone waiting for a reply. -/
def Activity.Proper : Activity → Prop
  | proxy _ _ _ _ answers => ∀ a ∈ answers, Frameworks.Proper true a
  | looperRead answer => Frameworks.Proper false answer

/-- A thread does one thing after another, until a call is left waiting. -/
def runThread (S : Services σ) : List Activity → σ → Option (List Event × σ)
  | [], s => some ([], s)
  | a :: as, s => (a.run S s).bind fun (evs, waiting, s) =>
    if waiting then some (evs, s)
    else (runThread S as s).map fun (evs', s) => (evs ++ evs', s)

theorem activity_custody {a : Activity} {s s' : σ} {evs : List Event} {waiting : Bool}
    (hproper : a.Proper) (h : a.run S s = some (evs, waiting, s')) :
    custody .idle evs = some .idle := by
  cases a with
  | proxy P mTargetHandle msgIo replyIo answers =>
      simp only [Activity.run, Option.map_eq_some_iff, Prod.exists, Prod.mk.injEq] at h
      rcases h with ⟨evs₁, res, s₁, hcall, rfl, _⟩
      exact proxy_custody hproper hcall
  | looperRead answer =>
      cases hproper with
      | failed n =>
          simp only [Activity.run, Option.some.injEq, Prod.mk.injEq] at h
          rw [← h.1]
          rfl
      | read n r hknown hreply =>
          simp only [Read.answer, Activity.run, binderParse_encode, Option.map_eq_some_iff,
            Prod.exists, Prod.mk.injEq] at h
          rcases h with ⟨evs₁, l, hexec, rfl, _⟩
          exact execute_idle hknown hreply hexec

/-- A thread keeps the discipline, and holds nothing between its activities. -/
theorem runThread_custody {activities : List Activity} {s s' : σ} {evs : List Event}
    (hproper : ∀ a ∈ activities, a.Proper) (h : runThread S activities s = some (evs, s')) :
    custody .idle evs = some .idle := by
  induction activities generalizing s evs with
  | nil =>
      simp only [runThread, Option.some.injEq, Prod.mk.injEq] at h
      rw [← h.1]
      rfl
  | cons a activities ih =>
      simp only [runThread, Option.bind_eq_some_iff, Prod.exists] at h
      rcases h with ⟨evs₁, waiting, s₁, ha, h⟩
      have hfirst := activity_custody (hproper a List.mem_cons_self) ha
      by_cases hwaiting : waiting = true
      · -- A thread that waits does nothing else.
        rw [if_pos hwaiting] at h
        simp only [Option.some.injEq, Prod.mk.injEq] at h
        rw [← h.1]
        exact hfirst
      · rw [if_neg hwaiting, Option.map_eq_some_iff] at h
        rcases h with ⟨⟨evs₂, s₂⟩, hrest, heq⟩
        simp only [Prod.mk.injEq] at heq
        rcases heq with ⟨rfl, rfl⟩
        rw [custody_append, hfirst, Option.bind_some]
        exact ih (fun a ha => hproper a (List.mem_cons_of_mem _ ha)) hrest

variable {τ : Type} [DecidableEq τ]

/-- A process of any number of threads, each doing any proxy calls and looper
    reads, interleaved in any way and observed at any point. No buffer is given
    back more often than its handler or proxy was finished with it, nor
    finished with more often than it was received; a thread that has returned
    has given every buffer it received back once; and so has the process when
    all its threads have. -/
theorem buffers_freed_once (S : τ → Services σ) (activities : τ → List Activity)
    (start final : τ → σ) (logs : τ → List Event)
    (hproper : ∀ t, ∀ a ∈ activities t, a.Proper)
    (hrun : ∀ t, runThread (S t) (activities t) (start t) = some (logs t, final t))
    (log : List (τ × Event)) (hlog : ∀ t, threadLog t log <+: logs t) (buffer : UInt32) :
    (countAll phase .returned buffer log ≤ countAll phase .finished buffer log ∧
      countAll phase .finished buffer log ≤ countAll phase .received buffer log) ∧
    (∀ t, count phase .returned buffer (threadLog t log)
        ≤ count phase .finished buffer (threadLog t log)) ∧
    (∀ t, threadLog t log = logs t → count phase .received buffer (threadLog t log)
        = count phase .returned buffer (threadLog t log)) ∧
    ((∀ t, threadLog t log = logs t) → countAll phase .received buffer log
        = countAll phase .returned buffer log) := by
  -- Each thread on its own; the interleaving is left to the counts.
  have hcustody : ∀ t, run (Custody.step phase) .idle (logs t) = some .idle :=
    fun t => runThread_custody (hproper t) (hrun t)
  refine ⟨counts_le (fun t => ⟨_, hcustody t⟩) hlog buffer,
    fun t => (prefix_counts (hcustody t) (hlog t) buffer).1, fun t ht => ?_, fun hall => ?_⟩
  · rw [ht]
    exact idle_counts (hcustody t) buffer
  · refine counts_eq (fun t => ?_) buffer
    rw [hall t]
    exact hcustody t

/-- A message of one zero word in the given buffer. -/
def wordTxn (buffer : UInt32) : Txn :=
  { target := 8, cookie := 0, code := 2, flags := 0, senderPid := 0, senderEuid := 0,
    dataSize := 4, offsetsSize := 0, buffer, offsets := 0x7000 }

def wordRead (c : Return) : Read :=
  { mem := ⟨fun _ => [0, 0, 0, 0], fun _ => []⟩, commands := [.noop, c], stale := [] }

/-- One thread removes a listener and is handed a transaction while it waits;
    the other is a looper. -/
def sampleActivities : Bool → List Activity
  | true => [.proxy (BpInputManager.delListener 3) 1 ⟨0x1000, fun _ => 0, fun _ => 0⟩
      ⟨0x2000, fun _ => 0, fun _ => 0⟩
      [(wordRead (.transaction (wordTxn 0x4000))).answer 44, (wordRead (.reply (wordTxn 0x5000))).answer 44]]
  | false => [.looperRead ((wordRead (.transaction (wordTxn 0x6000))).answer 0)]

def sampleLogs (t : Bool) : List Event :=
  ((runThread quietServices (sampleActivities t) ()).map Prod.fst).getD []

/-- The looper's transaction comes in the middle of the call. -/
def sampleLog : List (Bool × Event) :=
  ((sampleLogs true).take 4).map (fun e => (true, e)) ++ (sampleLogs false).map (fun e => (false, e))
    ++ ((sampleLogs true).drop 4).map fun e => (true, e)

theorem buffers_freed_once_sample :
    countAll phase .received 0x5000 sampleLog = 1 ∧
      countAll phase .received 0x5000 sampleLog = countAll phase .returned 0x5000 sampleLog := by
  have hproper : ∀ t, ∀ a ∈ sampleActivities t, a.Proper := by
    intro t a ha
    cases t with
    | true =>
        rw [List.mem_singleton.mp ha]
        intro answer hanswer
        rcases List.mem_cons.mp hanswer with rfl | hrest
        · exact .read 44 _ (by decide) (fun c hc => by rw [List.mem_singleton.mp hc]; simp)
        · rw [List.mem_singleton.mp hrest]
          exact .read 44 _ (by decide) (fun c hc => by rw [List.mem_singleton.mp hc]; simp)
    | false =>
        rw [List.mem_singleton.mp ha]
        refine .read 0 _ (by decide) fun c hc => ?_
        rcases List.mem_cons.mp hc with rfl | hrest
        · simp
        · rw [List.mem_singleton.mp hrest]
          simp
  have hsome : ∀ t, (runThread quietServices (sampleActivities t) ()).isSome = true := by
    decide +kernel
  have hrun : ∀ t, runThread quietServices (sampleActivities t) () = some (sampleLogs t, ()) := by
    intro t
    rcases Option.isSome_iff_exists.mp (hsome t) with ⟨⟨evs, _⟩, hrun⟩
    rw [sampleLogs, hrun]
    rfl
  -- The interleaved log, taken apart by thread again, is the threads' logs.
  have hlog : ∀ t, threadLog t sampleLog = sampleLogs t := by decide +kernel
  refine ⟨by decide +kernel, ?_⟩
  exact (buffers_freed_once (fun _ => quietServices) sampleActivities (fun _ => ()) (fun _ => ())
    sampleLogs hproper hrun sampleLog (fun t => by rw [hlog t]) 0x5000).2.2.2 hlog

end Frameworks

end ZeusOS
