import ZeusOS.Binder.Stream

/-!
# The Looper's Replies

Which transactions the looper answers, and what becomes of a looper that
answers one it should not.

The parser sends a reply for every transaction it takes from the stream and
never looks at `TF_ONE_WAY`. So a stream is answered as the protocol asks when
it has no one-way transaction where the parser gets to, and no other
transaction where it does not. `repliesFor_iff` is that statement in both
directions.

A driver has no use for a reply nobody waits for and answers it with
`BR_FAILED_REPLY`. The looper takes that for the end of its own work and
leaves. The driver is described by what it owes: each one-way transaction
answered in a read adds one failed reply to be delivered in some later read,
and it sends none that it does not owe. `readLoop_running` carries the debt
through the reads: the looper survives exactly when nothing is owed at the
start and no one-way transaction ever comes.

## Main definitions

* `repliesOf`, `handledOf`: The replies and the handler calls among the events.
* `RepliesFor`: The reply protocol for one stream.
* `Served`: Reads from a driver that pays what it owes.

## Theorems

* `execute_handled`: Every known transaction is handled and answered.
* `repliesFor_iff`: When a stream is answered as the protocol asks.
* `execute_r`: What the parser returns to a looper.
* `readLoop_running`: When the looper survives.
* `looper_replies_iff`: Both, for the parser and the loop.
-/

namespace ZeusOS

namespace Binder

open Foundation.Words

/-- The replies written, in order. -/
def repliesOf (evs : List Event) : List Sent :=
  evs.filterMap fun
    | .wrote (.reply t) => some t
    | _ => none

/-- The handler calls that returned, in order. -/
def handledOf (evs : List Event) : List (Txn × Int32 × Parcel) :=
  evs.filterMap fun
    | .handled txn status reply => some (txn, status, reply)
    | _ => none

/-- The transactions of a stream. -/
def transactions (cs : List Return) : List Txn :=
  cs.filterMap fun
    | .transaction txn => some txn
    | _ => none

/-- The reply that carries what a handler came back with. -/
def replyOf (h : Txn × Int32 × Parcel) : Sent := replyTxn h.2.2 h.2.1

/-- The handler call of a transaction whose sender waits for an answer. -/
def awaited (h : Txn × Int32 × Parcel) : Bool := !h.1.oneWay

/-- The reply protocol: the transactions that expect an answer are handled in
    the order they came, and the replies written are theirs and no others. -/
structure RepliesFor (cs : List Return) (evs : List Event) : Prop where
  handled : ((handledOf evs).filter awaited).map Prod.fst
    = (transactions cs).filter fun txn => !txn.oneWay
  replies : repliesOf evs = ((handledOf evs).filter awaited).map replyOf

@[simp] theorem repliesOf_append (evs evs' : List Event) :
    repliesOf (evs ++ evs') = repliesOf evs ++ repliesOf evs' := List.filterMap_append

@[simp] theorem handledOf_append (evs evs' : List Event) :
    handledOf (evs ++ evs') = handledOf evs ++ handledOf evs' := List.filterMap_append

@[simp] theorem repliesOf_refEvents (writes : List RefCommand) :
    repliesOf (refEvents writes) = [] := by
  unfold repliesOf refEvents
  rw [List.filterMap_map]
  exact List.filterMap_eq_nil_iff.mpr fun _ _ => rfl

@[simp] theorem handledOf_refEvents (writes : List RefCommand) :
    handledOf (refEvents writes) = [] := by
  unfold handledOf refEvents
  rw [List.filterMap_map]
  exact List.filterMap_eq_nil_iff.mpr fun _ _ => rfl

theorem transactions_append (cs cs' : List Return) :
    transactions (cs ++ cs') = transactions cs ++ transactions cs' := List.filterMap_append

variable {σ : Type} {S : Services σ} {mem : Mapping}

@[simp] theorem handledOf_transactionEvents (txn : Txn) (res : Handled σ) :
    handledOf (transactionEvents txn res) = [(txn, res.status, res.reply)] := by
  unfold transactionEvents
  rw [handledOf_append]
  change handledOf (refEvents res.writes) ++ [(txn, res.status, res.reply)] = _
  rw [handledOf_refEvents, List.nil_append]

@[simp] theorem repliesOf_transactionEvents (txn : Txn) (res : Handled σ) :
    repliesOf (transactionEvents txn res) = [replyTxn res.reply res.status] := by
  unfold transactionEvents
  rw [repliesOf_append]
  change repliesOf (refEvents res.writes) ++ [replyTxn res.reply res.status] = _
  rw [repliesOf_refEvents, List.nil_append]

/-- The transaction an action is about. -/
def Action.transactions : Action → List Txn
  | transaction txn => [txn]
  | _ => []

theorem action_transactions {c : Return} {action : Action} (haction : c.action = some action)
    (cs : List Return) :
    Binder.transactions (c :: cs) = action.transactions ++ Binder.transactions cs := by
  cases c <;> cases haction <;> rfl

/-- An action handles the transaction it is given, if any, and answers it. -/
theorem performed_handled {l l' : Looper σ} {action : Action} {evs : List Event}
    (h : Performed S mem l action evs l') :
    (handledOf evs).map Prod.fst = action.transactions ∧
      repliesOf evs = (handledOf evs).map replyOf := by
  cases h with
  | transaction txn res _ =>
      rw [handledOf_transactionEvents, repliesOf_transactionEvents]
      exact ⟨rfl, rfl⟩
  -- A callback may write reference commands, but it handles and answers nothing.
  | deadBinder cookie writes s _ =>
      have hhandled : handledOf (.binderDeath cookie :: refEvents writes) = [] :=
        handledOf_refEvents writes
      have hreplies : repliesOf (.binderDeath cookie :: refEvents writes) = [] :=
        repliesOf_refEvents writes
      rw [hhandled, hreplies]
      exact ⟨rfl, rfl⟩
  | skip | spawnLooper | taken _ _ | ignored _ _ | failed => exact ⟨rfl, rfl⟩

/-- Every transaction the parser gets to is handled, in order, and every one of
    them is answered. -/
theorem execute_handled {cs : List Return} {l l' : Looper σ} {evs : List Event}
    (h : execute S mem cs l = some (evs, l')) :
    (handledOf evs).map Prod.fst = transactions (known cs) ∧
      repliesOf evs = (handledOf evs).map replyOf := by
  induction cs generalizing l evs with
  | nil =>
      simp only [execute, Option.some.injEq, Prod.mk.injEq] at h
      rw [← h.1]
      exact ⟨rfl, rfl⟩
  | cons c cs ih =>
      cases haction : c.action with
      | none =>
          simp only [execute, haction, Option.some.injEq, Prod.mk.injEq] at h
          have hknown : known (c :: cs) = [] := by
            simp only [known, List.takeWhile_cons, haction, Option.isSome_none,
              Bool.false_eq_true, if_false]
          -- The parser gives up before it has done anything.
          rw [← h.1, hknown]
          exact ⟨rfl, rfl⟩
      | some action =>
          have hknown : known (c :: cs) = c :: known cs := by
            simp only [known, List.takeWhile_cons, haction, Option.isSome_some, if_true]
          rcases execute_cons haction h with ⟨evs₁, evs₂, l₁, hperform, hrest, hevs⟩
          -- The first action by its cases, the others by induction.
          have hfirst := performed_handled (perform_cases hperform)
          have hlater := ih hrest
          rw [hevs, hknown, action_transactions haction, handledOf_append, repliesOf_append,
            List.map_append, List.map_append, hfirst.1, hfirst.2, hlater.1, hlater.2]
          exact ⟨rfl, rfl⟩

/-- A stream is answered as the protocol asks exactly when the parser gets to
    no one-way transaction and misses no other. -/
theorem repliesFor_iff {cs : List Return} {l l' : Looper σ} {evs : List Event}
    (h : execute S mem cs l = some (evs, l')) :
    RepliesFor cs evs ↔ (∀ txn ∈ transactions (known cs), txn.oneWay = false) ∧
      ∀ txn ∈ transactions (unreached cs), txn.oneWay = true := by
  rcases execute_handled h with ⟨hhandled, hreplies⟩
  have hsplit : transactions cs = transactions (known cs) ++ transactions (unreached cs) := by
    rw [← transactions_append, known_append_unreached]
  have hfilter : ((handledOf evs).filter awaited).map Prod.fst
      = (transactions (known cs)).filter fun txn => !txn.oneWay := by
    rw [← hhandled, List.filter_map]
    rfl
  constructor
  · intro hfor
    refine ⟨fun txn htxn => ?_, fun txn htxn => ?_⟩
    · -- As many replies as handler calls leave no call out of the filter.
      have hlen := congrArg List.length (hreplies.symm.trans hfor.replies)
      rw [List.length_map, List.length_map] at hlen
      have hall := List.length_filter_eq_length_iff.mp hlen.symm
      rw [← hhandled, List.mem_map] at htxn
      rcases htxn with ⟨call, hcall, rfl⟩
      have := hall call hcall
      simpa only [awaited, Bool.not_eq_true'] using this
    · -- The calls that were made account for all awaited ones, so none was missed.
      have hnil : (transactions (unreached cs)).filter (fun txn => !txn.oneWay) = [] := by
        have := hfor.handled
        rw [hfilter, hsplit, List.filter_append] at this
        exact List.self_eq_append_right.mp this
      have := List.filter_eq_nil_iff.mp hnil txn htxn
      simpa only [Bool.not_eq_true', Bool.not_eq_false] using this
  · -- Every call was awaited, and what was missed asked for no reply.
    rintro ⟨hreached, hmissed⟩
    have hall : (handledOf evs).filter awaited = handledOf evs := by
      refine List.filter_eq_self.mpr fun call hcall => ?_
      have := hreached call.1 (by rw [← hhandled]; exact List.mem_map_of_mem hcall)
      simp only [awaited, this, Bool.not_false]
    have hnil : (transactions (unreached cs)).filter (fun txn => !txn.oneWay) = [] := by
      refine List.filter_eq_nil_iff.mpr fun txn htxn => ?_
      simp only [hmissed txn htxn, Bool.not_true, Bool.false_eq_true, not_false_eq_true]
    refine ⟨?_, ?_⟩
    · rw [hfilter, hsplit, List.filter_append, hnil, List.append_nil]
    · rw [hall, hreplies]

/-- The commands a driver sends to a looper: no answers to calls, and nothing
    the parser does not know. -/
def Return.forLooper : Return → Bool
  | reply _ => false
  | deadReply => false
  | c => c.action.isSome

/-- The failed replies a read delivers. -/
def failedReplies (cs : List Return) : Nat := cs.countP fun c => c == .failedReply

/-- The one-way transactions a read delivers, each of which will be answered by
    a reply the driver has to fail. -/
def oneWays (cs : List Return) : Nat := (transactions cs).countP Txn.oneWay

/-- Reads from a driver that owes some failed replies to begin with, sends none
    that it does not owe, and owes none in the end. -/
inductive Served : Nat → List Read → Prop
  | done : Served 0 []
  | read (owed : Nat) (r : Read) (reads : List Read)
      (hfor : ∀ c ∈ r.commands, c.forLooper = true)
      (howed : failedReplies r.commands ≤ owed)
      (hreads : Served (owed - failedReplies r.commands + oneWays r.commands) reads) :
      Served owed (r :: reads)

/-- To a looper the parser returns one, unless the read held a failed reply. -/
theorem execute_r {cs : List Return} {l l' : Looper σ} {evs : List Event}
    (hfor : ∀ c ∈ cs, c.forLooper = true) (h : execute S mem cs l = some (evs, l')) :
    l'.r = if failedReplies cs = 0 then l.r else -1 := by
  induction cs generalizing l evs with
  | nil =>
      simp only [execute, Option.some.injEq, Prod.mk.injEq] at h
      rw [← h.2]
      rfl
  | cons c cs ih =>
      have hc := hfor c List.mem_cons_self
      have hcount : failedReplies (c :: cs)
          = failedReplies cs + if c = .failedReply then 1 else 0 := by
        simp only [failedReplies, List.countP_cons, beq_iff_eq]
      -- Whatever the command is, the parser has a case for it.
      have hknown : ∃ action, c.action = some action ∧ ∀ txn, action ≠ .reply txn := by
        cases c <;> cases hc <;> exact ⟨_, rfl, fun _ => Action.noConfusion⟩
      rcases hknown with ⟨action, haction, hnoreply⟩
      rcases execute_cons haction h with ⟨evs₁, evs₂, l₁, hperform, hrest, _⟩
      have hrest := ih (fun c hc => hfor c (List.mem_cons_of_mem _ hc)) hrest
      -- A looper is sent no reply, so only a failure changes the value.
      have hfirst : l₁.r = if c = .failedReply then -1 else l.r := by
        by_cases hfailed : c = .failedReply
        · rw [if_pos hfailed]
          subst hfailed
          cases haction
          cases perform_cases hperform with
          | failed => rfl
        · rw [if_neg hfailed]
          cases perform_cases hperform with
          | failed => cases c <;> cases haction <;> [cases hc; exact absurd rfl hfailed]
          | taken txn _ => exact absurd rfl (hnoreply txn)
          | ignored txn _ => exact absurd rfl (hnoreply txn)
          | skip | spawnLooper | transaction _ _ _ | deadBinder _ _ _ _ => rfl
      rw [hrest, hfirst, hcount]
      by_cases hfailed : c = .failedReply
      · simp only [if_pos hfailed, Nat.succ_ne_zero, if_false, ite_self]
      · simp only [if_neg hfailed, Nat.add_zero]

/-- A looper outlives a driver's reads exactly when the driver owed nothing at
    the start and no one-way transaction was among them. -/
theorem readLoop_running {owed : Nat} {reads : List Read} {s s' : σ} {evs : List Event}
    {running : Bool} (hserved : Served owed reads)
    (h : readLoop S (reads.map (Read.answer 0)) s = some (evs, running, s')) :
    running = true ↔ owed = 0 ∧
      ∀ r ∈ reads, ∀ txn ∈ transactions r.commands, txn.oneWay = false := by
  induction hserved generalizing s evs with
  | done =>
      simp only [List.map_nil, readLoop, Option.some.injEq, Prod.mk.injEq] at h
      simp only [← h.2.1, List.not_mem_nil, false_implies, implies_true, and_self]
  | read owed r reads hfor howed hreads ih =>
      simp only [List.map_cons, Read.answer, readLoop, binderParse_encode,
        Option.bind_eq_some_iff, Prod.exists] at h
      rcases h with ⟨evs₁, l, hexec, h⟩
      have hr := execute_r hfor hexec
      have hstart : (Looper.start none s).r = 1 := rfl
      by_cases hfailed : failedReplies r.commands = 0
      · -- Nothing failed in this read, so the loop goes on and the debt only grows.
        have hone : ¬ l.r ≤ 0 := by
          rw [hr, if_pos hfailed, hstart]
          decide
        rw [if_neg hone, Option.map_eq_some_iff] at h
        rcases h with ⟨⟨evs₂, running', s₂⟩, hloop, heq⟩
        simp only [Prod.mk.injEq] at heq
        rcases heq with ⟨_, rfl, rfl⟩
        rw [ih hloop, hfailed]
        simp only [List.mem_cons, forall_eq_or_imp, oneWays, Nat.sub_zero, Nat.add_eq_zero_iff,
          List.countP_eq_zero, Bool.not_eq_true, and_assoc]
      · -- A failed reply ends the loop, and it was owed.
        have hminus : l.r ≤ 0 := by
          rw [hr, if_neg hfailed]
          decide
        rw [if_pos hminus, Option.some.injEq, Prod.mk.injEq, Prod.mk.injEq] at h
        rw [← h.2.1]
        constructor
        · intro hfalse
          cases hfalse
        · rintro ⟨howed0, _⟩
          omega

/-- The reply protocol of the parser and the survival of the loop. A stream is
    answered as the protocol asks exactly when the parser gets to no one-way
    transaction and misses no other, and a looper whose driver fails the
    replies nobody waits for is left exactly when there is such a reply. -/
theorem looper_replies_iff (S : Services σ) (mem : Mapping) (data : Option Parcel)
    (cs : List Return) (stale : List UInt8) (s : σ) (evs : List Event) (l : Looper σ)
    (hparse : binderParse S mem data (encodeAll cs ++ stale) (encodeAll cs).length s
      = some (evs, l))
    (reads : List Read) (t t' : σ) (evs' : List Event) (running : Bool)
    (hserved : Served 0 reads)
    (hloop : binderLoop S (reads.map (Read.answer 0)) t = some (evs', running, t')) :
    (RepliesFor cs evs ↔ (∀ txn ∈ transactions (known cs), txn.oneWay = false) ∧
      ∀ txn ∈ transactions (unreached cs), txn.oneWay = true) ∧
    (running = true ↔ ∀ r ∈ reads, ∀ txn ∈ transactions r.commands, txn.oneWay = false) := by
  rw [binderParse_encode] at hparse
  simp only [binderLoop, Option.map_eq_some_iff, Prod.mk.injEq, Prod.exists] at hloop
  rcases hloop with ⟨evs'', running', t'', hloop, _, rfl, rfl⟩
  refine ⟨repliesFor_iff hparse, ?_⟩
  -- Nothing is owed at the start, so only the transactions decide.
  rw [readLoop_running hserved hloop]
  simp only [true_and]

/-- A process whose objects accept everything. -/
def quietServices : Services Unit :=
  { newIoData := fun _ => { addr := 0x1000, bytes := fun _ => 0, words := fun _ => 0 }
    bnBinder := fun _ _ _ reply s => some { status := 0, reply, writes := [], state := s }
    bnServiceManager := fun _ _ reply s => some { status := 0, reply, writes := [], state := s }
    binderDeath := fun _ s => some ([], s) }

/-- A read of one transaction without payload, with the flags given. -/
def bareRead (flags : UInt32) : Read :=
  { mem := ⟨fun _ => [], fun _ => []⟩
    commands := [.transaction
      { target := 8, cookie := 0, code := 1, flags, senderPid := 0, senderEuid := 0,
        dataSize := 0, offsetsSize := 0, buffer := 0x4000, offsets := 0x4000 }]
    stale := [] }

theorem looper_replies_iff_bare :
    ∃ evs l evs', binderParse quietServices (bareRead 0).mem none
        (encodeAll (bareRead 0).commands ++ []) (encodeAll (bareRead 0).commands).length ()
        = some (evs, l) ∧
      binderLoop quietServices ([bareRead 0].map (Read.answer 0)) () = some (evs', true, ()) ∧
      RepliesFor (bareRead 0).commands evs := by
  -- A call without a one-way transaction leaves no debt.
  have hserved : Served 0 [bareRead 0] :=
    .read 0 (bareRead 0) [] (by decide) (by decide) .done
  refine ⟨_, _, _, rfl, rfl, ?_⟩
  exact (looper_replies_iff quietServices (bareRead 0).mem none (bareRead 0).commands [] () _ _ rfl
    [bareRead 0] () () _ true hserved rfl).1.mpr ⟨by decide, by decide⟩

/-- A one-way transaction is answered, and the looper is gone after the next
    read, in which the driver fails the reply. -/
theorem oneWay_replied :
    ∃ evs l evs', binderParse quietServices (bareRead tfOneWay).mem none
        (encodeAll (bareRead tfOneWay).commands) (encodeAll (bareRead tfOneWay).commands).length ()
        = some (evs, l) ∧
      ¬ RepliesFor (bareRead tfOneWay).commands evs ∧
      Served 0 [bareRead tfOneWay, ⟨⟨fun _ => [], fun _ => []⟩, [.failedReply], []⟩] ∧
      binderLoop quietServices ([bareRead tfOneWay,
        ⟨⟨fun _ => [], fun _ => []⟩, [.failedReply], []⟩].map (Read.answer 0)) ()
        = some (evs', false, ()) := by
  have hexec : ∃ evs l, execute quietServices (bareRead tfOneWay).mem
      (bareRead tfOneWay).commands (Looper.start none ()) = some (evs, l) := ⟨_, _, rfl⟩
  rcases hexec with ⟨evs, l, hexec⟩
  refine ⟨evs, l, _, ?_, ?_, ?_, rfl⟩
  · rw [← hexec, ← binderParse_encode _ _ _ _ [], List.append_nil]
  · rw [repliesFor_iff hexec]
    intro h
    exact absurd h.1 (by decide)
  · exact .read 0 _ _ (by decide) (by decide)
      (.read 1 _ _ (by decide) (by decide) .done)

end Binder

end ZeusOS
