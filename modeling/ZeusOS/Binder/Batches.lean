import ZeusOS.Binder.Looper

/-!
# Commands in Batches

The driver may put all it has to say into one read or spread it over several,
and a thread that is woken early sees less in its first read than one that is
woken late. `binderParse` starts afresh on every read, with nothing returned
yet and, in a call, with the reply still wanted. Two loops put the reads
together again, each deciding on the value returned whether to go on.

A reply or a failure makes both loops leave at the end of the read it came in,
and a command the parser does not know makes the parser leave at once. So what
stands behind such a command in the same read is carried out, or skipped, where
in a read of its own it would still be waiting. Nothing else tells the reads
apart. `parseReads` is what the two loops have in common, and where such a
command comes last, `parseReads_eq` says that it carries out the commands as if
there were one read.

## Main definitions

* `Return.ends`, `EndsOnce`: Commands that end a loop, and where they may stand.
* `CutInto`: A read spread over several.
* `seen`, `preceded`: Events left out, and events put before.
* `parseReads`: A loop over reads.
* `outcome`: What a call makes of the value returned.
* `Event.sends`, `Event.idle`: What an `ioctl` hands over.

## Theorems

* `execute_append`: Carrying out two lists, one after the other.
* `execute_continues`, `execute_quiet`: When a loop goes on, and from where.
* `parseReads_eq`: The loop does not see the cuts.
* `callLoop_parseReads`, `readLoop_parseReads`: Both loops are that loop.
* `callLoop_whole`, `callLoop_sent_whole`, `readLoop_whole`: Each of them.
* `batches_alike`: A call and a looper, in one read or in many.
-/

namespace ZeusOS

namespace Binder

variable {σ : Type} {S : Services σ} {mem mem' : Mapping}

/-- A reply, a failure, or a command that is not known. -/
def Return.ends (c : Return) : Bool :=
  match c.action with
  | none => true
  | some (.reply _) => true
  | some .failed => true
  | _ => false

/-- No command but the last ends a loop. -/
def EndsOnce (cs : List Return) : Prop := ∀ c ∈ cs.dropLast, c.ends = false

/-- Two mappings show the same messages for these commands. -/
def SameContents (mem mem' : Mapping) (cs : List Return) : Prop :=
  ∀ c ∈ cs, ∀ txn, c.action = some (.transaction txn) ∨ c.action = some (.reply txn) →
    Parcel.bioInitFromTxn mem txn = Parcel.bioInitFromTxn mem' txn

/-- The commands of one read, spread over at least one. -/
structure CutInto (whole : Read) (reads : List Read) : Prop where
  nonempty : reads ≠ []
  commands : reads.flatMap Read.commands = whole.commands
  contents : ∀ r ∈ reads, SameContents r.mem whole.mem r.commands

/-- The events that are looked at. -/
def seen {ρ : Type} (p : Event → Bool) (res : List Event × ρ) : List Event × ρ :=
  (res.1.filter p, res.2)

/-- What was done before comes first. -/
def preceded {ρ : Type} (evs : List Event) (res : List Event × ρ) : List Event × ρ :=
  (evs ++ res.1, res.2)

theorem seen_preceded {ρ : Type} (p : Event → Bool) (evs : List Event) (res : List Event × ρ) :
    seen p (preceded evs res) = preceded (evs.filter p) (seen p res) := by
  unfold seen preceded
  rw [List.filter_append]

theorem preceded_nil {ρ : Type} (res : List Event × ρ) : preceded [] res = res := rfl

theorem preceded_preceded {ρ : Type} (evs evs' : List Event) (res : List Event × ρ) :
    preceded evs (preceded evs' res) = preceded (evs ++ evs') res := by
  unfold preceded
  rw [List.append_assoc]

/-- Where two lists of commands come one after the other, the first is carried
    out to its end if all of it is known. -/
theorem execute_append {xs ys : List Return} (l : Looper σ)
    (hknown : ∀ c ∈ xs, c.action ≠ none) :
    execute S mem (xs ++ ys) l = (execute S mem xs l).bind fun (evs, l) =>
      (execute S mem ys l).map (preceded evs) := by
  induction xs generalizing l with
  | nil =>
      rcases hys : execute S mem ys l with _ | ⟨evs, l'⟩
      · simp only [List.nil_append, hys, execute, Option.bind_some, Option.map_none]
      · simp only [List.nil_append, hys, execute, Option.bind_some, Option.map_some, preceded_nil]
  | cons c xs ih =>
      rcases Option.ne_none_iff_exists'.mp (hknown c List.mem_cons_self) with ⟨action, haction⟩
      have ih := fun l => ih l fun c hc => hknown c (List.mem_cons_of_mem _ hc)
      simp only [List.cons_append, execute, haction, ih]
      rcases perform S mem l action with _ | ⟨evs, l₁⟩
      · rfl
      · simp only [Option.bind_some]
        rcases execute S mem xs l₁ with _ | ⟨evs₁, l₂⟩
        · rfl
        · have hevs : (preceded evs ∘ preceded evs₁ : List Event × Looper σ → _)
              = preceded (evs ++ evs₁) := funext (preceded_preceded evs evs₁)
          simp only [Option.bind_some, Option.map_some]
          rw [← hevs, ← Option.map_map]
          rfl

/-- Only the messages are looked up in the mapping. -/
theorem execute_congr {cs : List Return} (l : Looper σ) (hsame : SameContents mem mem' cs) :
    execute S mem cs l = execute S mem' cs l := by
  induction cs generalizing l with
  | nil => rfl
  | cons c cs ih =>
      have ih := fun l => ih l fun c hc => hsame c (List.mem_cons_of_mem _ hc)
      have hperform : ∀ action, c.action = some action →
          perform S mem l action = perform S mem' l action := by
        intro action haction
        cases action with
        | transaction txn =>
            simp only [perform, hsame c List.mem_cons_self txn (.inl haction)]
        | reply txn =>
            simp only [perform, hsame c List.mem_cons_self txn (.inr haction)]
        | skip | spawnLooper | deadBinder | failed => rfl
      cases haction : c.action with
      | none => simp only [execute, haction]
      | some action => simp only [execute, haction, hperform action haction, ih]

/-- As long as the value is positive, nothing but the state has changed. -/
theorem execute_continues {cs : List Return} {l l' : Looper σ} {evs : List Event}
    (h : execute S mem cs l = some (evs, l')) (hpos : 0 < l'.r) :
    l' = { l with state := l'.state } := by
  induction cs generalizing l evs with
  | nil =>
      simp only [execute, Option.some.injEq, Prod.mk.injEq] at h
      rw [← h.2]
  | cons c cs ih =>
      cases haction : c.action with
      | none =>
          simp only [execute, haction, Option.some.injEq, Prod.mk.injEq] at h
          rw [← h.2] at hpos
          exact absurd hpos (by decide : ¬ (0 : Int) < -1)
      | some action =>
          rcases execute_cons haction h with ⟨evs₁, evs₂, l₁, hperform, hrest, _⟩
          have hl' := ih hrest
          have hr : 0 < l₁.r := by
            rw [hl'] at hpos
            exact hpos
          -- What makes the value zero or less is not made good later.
          cases perform_cases hperform with
          | skip | spawnLooper => exact hl'
          | transaction txn res hres => exact hl'
          | deadBinder cookie writes s hdeath => exact hl'
          | taken | ignored => exact absurd hr (Int.lt_irrefl 0)
          | failed => exact absurd hr (by decide : ¬ (0 : Int) < -1)

/-- A list without a command that ends a loop leaves the value as it is. -/
theorem execute_quiet {cs : List Return} {l l' : Looper σ} {evs : List Event}
    (hquiet : ∀ c ∈ cs, c.ends = false) (h : execute S mem cs l = some (evs, l')) :
    l'.r = l.r := by
  induction cs generalizing l evs with
  | nil =>
      simp only [execute, Option.some.injEq, Prod.mk.injEq] at h
      rw [← h.2]
  | cons c cs ih =>
      have hc := hquiet c List.mem_cons_self
      have ih := fun l evs => @ih l evs fun c hc => hquiet c (List.mem_cons_of_mem _ hc)
      cases haction : c.action with
      | none =>
          simp only [Return.ends, haction, reduceCtorEq] at hc
      | some action =>
          rcases execute_cons haction h with ⟨evs₁, evs₂, l₁, hperform, hrest, _⟩
          rw [ih l₁ evs₂ hrest]
          cases perform_cases hperform with
          | skip | spawnLooper => rfl
          | transaction txn res hres => rfl
          | deadBinder cookie writes s hdeath => rfl
          | taken | ignored | failed => simp only [Return.ends, haction, reduceCtorEq] at hc

/-- A loop over reads, which goes on while the value is positive. -/
def parseReads (S : Services σ) (data : Option Parcel) :
    List Read → σ → Option (List Event × Looper σ)
  | [], s => some ([], Looper.start data s)
  | r :: reads, s => (execute S r.mem r.commands (Looper.start data s)).bind fun (evs, l) =>
    if l.r ≤ 0 then some (evs, l) else (parseReads S data reads l.state).map (preceded evs)

theorem quiet_of_endsOnce {xs ys : List Return} (hends : EndsOnce (xs ++ ys)) (hys : ys ≠ []) :
    ∀ c ∈ xs, c.ends = false := by
  intro c hc
  apply hends
  rw [List.dropLast_append_of_ne_nil hys]
  exact List.mem_append_left _ hc

theorem endsOnce_right {xs ys : List Return} (hends : EndsOnce (xs ++ ys)) : EndsOnce ys := by
  intro c hc
  apply hends
  have hys : ys ≠ [] := by
    intro hnil
    rw [hnil] at hc
    exact List.not_mem_nil hc
  rw [List.dropLast_append_of_ne_nil hys]
  exact List.mem_append_right _ hc

theorem known_of_quiet {cs : List Return} (hquiet : ∀ c ∈ cs, c.ends = false) :
    ∀ c ∈ cs, c.action ≠ none := by
  intro c hc haction
  have hends := hquiet c hc
  simp only [Return.ends, haction, reduceCtorEq] at hends

/-- The loop does not see the cuts: it carries out the commands of its reads as
    if they had come in one. -/
theorem parseReads_eq (mem : Mapping) (data : Option Parcel) (reads : List Read) (s : σ)
    (hcontents : ∀ r ∈ reads, SameContents r.mem mem r.commands)
    (hends : EndsOnce (reads.flatMap Read.commands)) :
    parseReads S data reads s
      = execute S mem (reads.flatMap Read.commands) (Looper.start data s) := by
  induction reads generalizing s with
  | nil => rfl
  | cons r reads ih =>
      rw [List.flatMap_cons] at hends ⊢
      have ih := fun s => ih s (fun r hr => hcontents r (List.mem_cons_of_mem _ hr))
        (endsOnce_right hends)
      have hfirst := execute_congr (S := S) (Looper.start data s)
        (hcontents r List.mem_cons_self)
      unfold parseReads
      rw [hfirst]
      by_cases hrest : reads.flatMap Read.commands = []
      · -- Nothing comes after this read, whatever it ends with.
        rw [hrest, List.append_nil]
        rw [hrest] at ih
        rcases hexec : execute S mem r.commands (Looper.start data s) with _ | ⟨evs, l⟩
        · rfl
        · simp only [Option.bind_some]
          by_cases hr : l.r ≤ 0
          · rw [if_pos hr]
          · have hl := execute_continues hexec (by omega)
            rw [if_neg hr, ih, execute, Option.map_some, preceded, List.append_nil, hl]
            rfl
      · -- Something does, so this read has nothing that ends the loop.
        have hquiet := quiet_of_endsOnce hends hrest
        rw [execute_append _ (known_of_quiet hquiet)]
        rcases hexec : execute S mem r.commands (Looper.start data s) with _ | ⟨evs, l⟩
        · rfl
        · have hr : l.r = 1 := execute_quiet hquiet hexec
          have hl := execute_continues hexec (by omega)
          simp only [Option.bind_some]
          rw [if_neg (by omega), ih]
          have hstart : Looper.start data l.state = l := hl.symm
          rw [hstart]

/-- The loop of a looper. -/
theorem readLoop_parseReads (S : Services σ) (reads : List (Nat × Read)) (s : σ) :
    readLoop S (reads.map fun r => r.2.answer r.1) s
      = (parseReads S none (reads.map Prod.snd) s).map fun (evs, l) =>
          (evs, decide (0 < l.r), l.state) := by
  induction reads generalizing s with
  | nil => rfl
  | cons r reads ih =>
      simp only [List.map_cons, Read.answer, readLoop, parseReads, binderParse_encode]
      rcases execute S r.2.mem r.2.commands (Looper.start none s) with _ | ⟨evs, l⟩
      · rfl
      · simp only [Option.bind_some]
        by_cases hr : l.r ≤ 0
        · have hpos : ¬ 0 < l.r := by omega
          rw [if_pos hr, if_pos hr, Option.map_some, decide_eq_false hpos]
        · have hih := ih l.state
          simp only [Read.answer] at hih
          rw [if_neg hr, if_neg hr, hih, Option.map_map, Option.map_map]
          rfl

/-- What a call makes of the value returned, and of the reply. -/
def outcome (reply : Parcel) (l : Looper σ) : CallResult × σ :=
  if l.r = 0 then (.returned 0 (l.data.getD reply), l.state)
  else if l.r < 0 then (.returned (-1) .failed, l.state)
  else (.waiting, l.state)

/-- One turn of the loop of a call. -/
theorem callLoop_read (S : Services σ) (request : Sent) (lo hi : Nat) (r : Read)
    (answers : List Answer) (reply : Parcel) (s : σ) :
    callLoop S request (r.answer hi :: answers) lo reply s
      = ((execute S r.mem r.commands (Looper.start (some reply) s)).bind fun (evs, l) =>
          if l.r ≤ 0 then some (evs, outcome reply l)
          else (callLoop S request answers hi reply l.state).map (preceded evs)).map
            (preceded [.sending request lo hi]) := by
  simp only [Read.answer, callLoop, binderParse_encode]
  rcases hexec : execute S r.mem r.commands (Looper.start (some reply) s) with _ | ⟨evs, l⟩
  · rfl
  · simp only [Option.bind_some, outcome]
    by_cases hzero : l.r = 0
    · rw [if_pos hzero, if_pos hzero, if_pos (by omega)]
      rfl
    · rw [if_neg hzero, if_neg hzero]
      by_cases hneg : l.r < 0
      · rw [if_pos hneg, if_pos hneg, if_pos (by omega)]
        rfl
      · -- The call goes on with the reply it had.
        have hl := execute_continues hexec (by omega)
        have hdata : l.data.getD reply = reply := by
          rw [hl]
          rfl
        rw [if_neg hneg, if_neg (by omega), hdata, Option.map_map]
        rfl

/-- The loop of a call, where what the `ioctl`s hand over is not looked at. -/
theorem callLoop_parseReads (S : Services σ) (request : Sent) (p : Event → Bool)
    (reads : List (Nat × Read)) (lo : Nat) (reply : Parcel) (s : σ)
    (hdrop : ∀ a ∈ lo :: reads.map Prod.fst, ∀ b ∈ reads.map Prod.fst,
      p (.sending request a b) = false) :
    (callLoop S request (reads.map fun r => r.2.answer r.1) lo reply s).map (seen p)
      = (parseReads S (some reply) (reads.map Prod.snd) s).map fun res =>
          seen p (res.1, outcome reply res.2) := by
  induction reads generalizing lo s with
  | nil => rfl
  | cons r reads ih =>
      have hfirst : p (.sending request lo r.1) = false :=
        hdrop lo List.mem_cons_self r.1 List.mem_cons_self
      have ih := fun s => ih r.1 s fun a ha b hb =>
        hdrop a (List.mem_cons_of_mem _ ha) b (List.mem_cons_of_mem _ hb)
      have hdropped : ∀ res : List Event × CallResult × σ,
          seen p (preceded [.sending request lo r.1] res) = seen p res := by
        intro res
        rw [seen_preceded, List.filter_cons, if_neg (Bool.not_eq_true _ ▸ hfirst), List.filter_nil,
          preceded_nil]
      rw [List.map_cons, callLoop_read, List.map_cons, parseReads, Option.map_map]
      simp only [Function.comp_def, hdropped]
      rcases execute S r.2.mem r.2.commands (Looper.start (some reply) s) with _ | ⟨evs, l⟩
      · rfl
      · simp only [Option.bind_some]
        by_cases hr : l.r ≤ 0
        · rw [if_pos hr, if_pos hr]
          rfl
        · -- The events of this read come before those of the others.
          have hbefore : ∀ X : Option (List Event × CallResult × σ),
              (X.map (preceded evs)).map (seen p)
                = (X.map (seen p)).map (preceded (evs.filter p)) := by
            intro X
            simp only [Option.map_map, Function.comp_def, seen_preceded]
          rw [if_neg hr, if_neg hr, hbefore, ih l.state, Option.map_map, Option.map_map]
          simp only [Function.comp_def, preceded, seen, List.filter_append]

/-- Bytes of a request are handed over, or could be. -/
def Event.sends : Event → Bool
  | .sending _ _ _ => true
  | _ => false

/-- An `ioctl` has nothing to hand over. -/
def Event.idle : Event → Bool
  | .sending _ lo hi => lo = hi
  | _ => false

/-- A call that starts with its request and one that has handed it over differ
    in what their first `ioctl` hands over. -/
theorem callLoop_sent (S : Services σ) (request : Sent) (n : Nat) (r : Read)
    (answers : List Answer) (reply : Parcel) (s : σ) :
    (callLoop S request (r.answer n :: answers) 0 reply s).map (seen fun e => !e.idle)
      = ((callLoop S request (r.answer n :: answers) n reply s).map (seen fun e => !e.idle)).map
          (preceded ([.sending request 0 n].filter fun e => !e.idle)) := by
  have hidle : [Event.sending request n n].filter (fun e => !e.idle) = [] := by
    simp only [List.filter_cons, Event.idle, decide_true, Bool.not_true, Bool.false_eq_true,
      if_false, List.filter_nil]
  rw [callLoop_read, callLoop_read]
  simp only [Option.map_map, Function.comp_def, seen_preceded, hidle, preceded_nil]

variable {whole : Read} {reads : List (Nat × Read)}

theorem parseReads_whole (hcut : CutInto whole (reads.map Prod.snd))
    (hends : EndsOnce whole.commands) (data : Option Parcel) (s : σ) :
    parseReads S data (reads.map Prod.snd) s = parseReads S data [whole] s := by
  have hone : [whole].flatMap Read.commands = whole.commands := List.append_nil _
  have hself : ∀ r ∈ [whole], SameContents r.mem whole.mem r.commands := by
    intro r hr
    rw [List.mem_singleton.mp hr]
    exact fun _ _ _ _ => rfl
  rw [parseReads_eq whole.mem data _ s hcut.contents (hcut.commands ▸ hends), hcut.commands,
    parseReads_eq whole.mem data _ s hself (hone ▸ hends), hone]

/-- In a call that has nothing to hand over that is looked at, one read is as
    good as many. -/
theorem callLoop_whole (hcut : CutInto whole (reads.map Prod.snd)) (hends : EndsOnce whole.commands)
    (request : Sent) (p : Event → Bool) (n lo : Nat) (reply : Parcel) (s : σ)
    (hdrop : ∀ a ∈ lo :: n :: reads.map Prod.fst, ∀ b ∈ n :: reads.map Prod.fst,
      p (.sending request a b) = false) :
    (callLoop S request (reads.map fun r => r.2.answer r.1) lo reply s).map (seen p)
      = (callLoop S request [whole.answer n] lo reply s).map (seen p) := by
  have hmany := callLoop_parseReads S request p reads lo reply s fun a ha b hb =>
    hdrop a (by
      rcases List.mem_cons.mp ha with rfl | ha
      · exact List.mem_cons_self
      · exact List.mem_cons_of_mem _ (List.mem_cons_of_mem _ ha)) b (List.mem_cons_of_mem _ hb)
  have hone := callLoop_parseReads S request p [(n, whole)] lo reply s fun a ha b hb =>
    hdrop a (by
      rcases List.mem_cons.mp ha with rfl | ha
      · exact List.mem_cons_self
      · rw [List.mem_singleton.mp ha]
        exact List.mem_cons_of_mem _ List.mem_cons_self) b (by
      rw [List.mem_singleton.mp hb]
      exact List.mem_cons_self)
  simp only [List.map_cons, List.map_nil] at hone
  rw [hmany, hone, parseReads_whole hcut hends]

/-- Nor does it matter where the driver takes the request in the first
    `ioctl`. -/
theorem callLoop_sent_whole (hcut : CutInto whole (reads.map Prod.snd))
    (hends : EndsOnce whole.commands) (request : Sent) (n : Nat) (hn : ∀ r ∈ reads, r.1 = n)
    (reply : Parcel) (s : σ) :
    (callLoop S request (reads.map fun r => r.2.answer r.1) 0 reply s).map (seen fun e => !e.idle)
      = (callLoop S request [whole.answer n] 0 reply s).map (seen fun e => !e.idle) := by
  have hmarks : ∀ a ∈ n :: reads.map Prod.fst, a = n := by
    intro a ha
    rcases List.mem_cons.mp ha with rfl | ha
    · rfl
    · rcases List.mem_map.mp ha with ⟨r, hr, rfl⟩
      exact hn r hr
  -- From where the request has been handed over, nothing more is.
  have hrest := callLoop_whole (S := S) hcut hends request (fun e => !e.idle) n n reply s (by
    intro a ha b hb
    have ha' : a = n := by
      rcases List.mem_cons.mp ha with rfl | ha
      · rfl
      · exact hmarks a ha
    rw [ha', hmarks b hb]
    simp only [Event.idle, decide_true, Bool.not_true])
  cases hreads : reads with
  | nil => exact absurd (by rw [hreads]; rfl) hcut.nonempty
  | cons r rest =>
      have hr : r.1 = n := hn r (hreads ▸ List.mem_cons_self)
      rw [hreads, List.map_cons, hr] at hrest
      rw [List.map_cons, hr, callLoop_sent, callLoop_sent, hrest]

theorem readLoop_whole (hcut : CutInto whole (reads.map Prod.snd)) (hends : EndsOnce whole.commands)
    (n : Nat) (s : σ) :
    readLoop S (reads.map fun r => r.2.answer r.1) s = readLoop S [whole.answer n] s := by
  have hone := readLoop_parseReads S [(n, whole)] s
  simp only [List.map_cons, List.map_nil] at hone
  rw [readLoop_parseReads, parseReads_whole hcut hends, hone]

/-- Of a read and the same commands cut into several, a call and a looper make
    the same. A call hands its request over as the driver takes it, which may
    differ; where the driver takes it in the first `ioctl`, that is the same as
    well. -/
theorem batches_alike (S : Services σ) (whole : Read) (reads : List (Nat × Read))
    (hcut : CutInto whole (reads.map Prod.snd)) (hends : EndsOnce whole.commands) :
    (∀ msg reply target code flags n s,
      (binderCall S msg reply target code flags (reads.map fun r => r.2.answer r.1) s).map
          (seen fun e => !e.sends)
        = (binderCall S msg reply target code flags [whole.answer n] s).map
          (seen fun e => !e.sends)) ∧
      (∀ msg reply target code flags n s, (∀ r ∈ reads, r.1 = n) →
        (binderCall S msg reply target code flags (reads.map fun r => r.2.answer r.1) s).map
            (seen fun e => !e.idle)
          = (binderCall S msg reply target code flags [whole.answer n] s).map
            (seen fun e => !e.idle)) ∧
      ∀ n s, binderLoop S (reads.map fun r => r.2.answer r.1) s
          = binderLoop S [whole.answer n] s ∧
        binderThreadLoop S (reads.map fun r => r.2.answer r.1) s
          = binderThreadLoop S [whole.answer n] s := by
  refine ⟨?_, ?_, ?_⟩
  · intro msg reply target code flags n s
    unfold binderCall
    by_cases hover : msg.flags.overflow = true
    · rw [if_pos hover, if_pos hover]
    · rw [if_neg hover, if_neg hover]
      exact callLoop_whole hcut hends _ _ n 0 reply s fun _ _ _ _ => rfl
  · intro msg reply target code flags n s hn
    unfold binderCall
    by_cases hover : msg.flags.overflow = true
    · rw [if_pos hover, if_pos hover]
    · rw [if_neg hover, if_neg hover]
      exact callLoop_sent_whole hcut hends _ n hn reply s
  · intro n s
    unfold binderLoop binderThreadLoop
    rw [readLoop_whole hcut hends n s]
    exact ⟨rfl, rfl⟩

/-- A transaction, a thread and a failure in one read. -/
def fullRead : Read :=
  { bareRead 0 with commands := (bareRead 0).commands ++ [.spawnLooper, .failedReply] }

/-- The same in two, the second with leftovers of the first. -/
def cutReads : List (Nat × Read) :=
  [(0, bareRead 0),
    (0, { bareRead 0 with commands := [.spawnLooper, .failedReply], stale := [0, 1, 2, 3] })]

theorem batches_alike_cut :
    (∃ evs, binderLoop quietServices [fullRead.answer 0] () = some (evs, false, ())) ∧
      binderLoop quietServices (cutReads.map fun r => r.2.answer r.1) ()
        = binderLoop quietServices [fullRead.answer 0] () := by
  have hcut : CutInto fullRead (cutReads.map Prod.snd) := by
    refine ⟨List.cons_ne_nil _ _, rfl, ?_⟩
    intro r hr
    rcases List.mem_cons.mp hr with rfl | hr
    · exact fun _ _ _ _ => rfl
    · rw [List.mem_singleton.mp hr]
      exact fun _ _ _ _ => rfl
  have hends : EndsOnce fullRead.commands := by
    unfold EndsOnce
    decide
  exact ⟨⟨_, rfl⟩, ((batches_alike quietServices fullRead cutReads hcut hends).2.2 0 ()).1⟩

end Binder

end ZeusOS
