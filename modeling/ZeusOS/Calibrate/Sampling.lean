import ZeusOS.Foundation.Leaders
import ZeusOS.Calibrate.Calibrate

/-!
# Sampling a Target

What `showTargetToLCD` makes of a sequence of events, however `readOnce` brings
it.

The loop looks at the first event of the array and at no other, where the
thread that reads for the listeners goes through all of them. So a press or a
release counts only if it leads its batch. A release that follows a press in
one batch is not seen, and the loop waits for another; a press that follows
something else is not seen, and an older one is taken, or whatever the two
coordinates held before.

Two deliveries of the same events give the same sample, then, exactly when the
leaders tell the same: the first release among them is the same event, and the
last press among those before it is at the point of the last press of all. That
is the case, for one, when every touch leads its batch, and then the sample
depends on nothing but the events.

## Main definitions

* `isPress`, `isRelease`: What the loop looks for.
* `lastPress`: The point of the last press.
* `delivered`, `Delivery`: The events that some calls bring, and the ways to
  bring them.
* `sampled`: What the loop leaves, and at which event it stops.
* `sample`: What it would leave if it looked at every event.
* `SampledAlike`: Two deliveries give the sample of the events.
* `LeadersTell`: What the leaders of two deliveries must tell.

## Theorems

* `sampled_leaders`: The loop sees the leaders.
* `sampled_eq`: The sample, from the leaders.
* `sampled_release`: The loop stops at a release.
* `sampled_of_leading`: The sample, when every touch leads its batch.
* `sampled_alike_iff`: When two deliveries give the same sample.
-/

namespace ZeusOS

namespace Calibrate

open Foundation.Leaders Input

def isTouch (e : CookEvent) : Bool := e.iType = touchscreen

/-- The finger is on the panel. -/
def isPress (e : CookEvent) : Bool := e.iType = touchscreen ∧ e.iPressure = 1

/-- The finger is off it. -/
def isRelease (e : CookEvent) : Bool := e.iType = touchscreen ∧ e.iPressure ≠ 1

/-- The point of the last press, if there is one. -/
def lastPress (es : List CookEvent) : Option (Int32 × Int32) :=
  (es.filter isPress).getLast?.map fun e => (e.iX, e.iY)

/-- The events that some calls bring. -/
def delivered (reads : List Read) : List CookEvent := (reads.map Read.batch).flatten

/-- The events that lead a batch, with their positions among all. -/
def leading (reads : List Read) : List (Nat × CookEvent) := leaders 0 (reads.map Read.batch)

theorem batch_of_nonpos {r : Read} (h : r.iRet ≤ 0) : r.batch = [] := by
  unfold Read.batch
  rw [Int.toNat_of_nonpos h, List.take_zero]

/-- A call that brought events brought the first one. -/
theorem batch_of_pos {r : Read} (h : ¬ r.iRet ≤ 0) : ∃ rest, r.batch = r.first :: rest := by
  rcases hcount : r.iRet.toNat with _ | count
  · omega
  · refine ⟨r.cookEvent.tail.take count, ?_⟩
    unfold Read.batch Read.first
    rw [hcount, ← List.take_succ_cons, List.cons_head_tail]

/-- A press is the last one, unless there is a later one. -/
theorem lastPress_press {e : CookEvent} (h : isPress e = true) (es : List CookEvent)
    (iL : Int32 × Int32) :
    (lastPress (e :: es)).getD iL = (lastPress es).getD (e.iX, e.iY) := by
  unfold lastPress
  rw [List.filter_cons, if_pos h, List.getLast?_cons]
  cases (es.filter isPress).getLast? <;> rfl

theorem lastPress_other {e : CookEvent} (h : ¬ isPress e = true) (es : List CookEvent) :
    lastPress (e :: es) = lastPress es := by
  unfold lastPress
  rw [List.filter_cons, if_neg h]

section Loop

variable {r : Read} (reads : List Read) (iL : Int32 × Int32)

theorem loop_nothing (h : r.iRet ≤ 0) :
    showTargetToLCD iL (r :: reads) = showTargetToLCD iL reads := by
  rw [showTargetToLCD, if_pos h]

theorem loop_press (h : ¬ r.iRet ≤ 0) (hpress : isPress r.first = true) :
    showTargetToLCD iL (r :: reads) = showTargetToLCD (r.first.iX, r.first.iY) reads := by
  rcases of_decide_eq_true hpress with ⟨htouch, hpressure⟩
  rw [showTargetToLCD, if_neg h, if_pos htouch, if_pos hpressure]

theorem loop_release (h : ¬ r.iRet ≤ 0) (hrelease : isRelease r.first = true) :
    showTargetToLCD iL (r :: reads) = some (iL, reads) := by
  rcases of_decide_eq_true hrelease with ⟨htouch, hpressure⟩
  rw [showTargetToLCD, if_neg h, if_pos htouch, if_neg hpressure]

theorem loop_other (h : ¬ r.iRet ≤ 0) (hpress : ¬ isPress r.first = true)
    (hrelease : ¬ isRelease r.first = true) :
    showTargetToLCD iL (r :: reads) = showTargetToLCD iL reads := by
  have htouch : ¬ r.first.iType = touchscreen := by
    intro htouch
    by_cases hpressure : r.first.iPressure = 1
    · exact hpress (decide_eq_true ⟨htouch, hpressure⟩)
    · exact hrelease (decide_eq_true ⟨htouch, hpressure⟩)
  rw [showTargetToLCD, if_neg h, if_neg htouch]

end Loop

/-- How many events came before the batch at which the loop stopped, when these
    calls are left. -/
def stoppedAt (reads rest : List Read) : Nat :=
  (delivered (reads.take (reads.length - (rest.length + 1)))).length

/-- The point the loop leaves, and the position of the event at which it stops. -/
def sampled (iL : Int32 × Int32) (reads : List Read) : Option ((Int32 × Int32) × Nat) :=
  (showTargetToLCD iL reads).map fun left => (left.1, stoppedAt reads left.2)

/-- The loop makes a call before it stops. -/
theorem showTargetToLCD_length {reads rest : List Read} {iL point : Int32 × Int32}
    (h : showTargetToLCD iL reads = some (point, rest)) : rest.length < reads.length := by
  induction reads generalizing iL with
  | nil => simp only [showTargetToLCD, reduceCtorEq] at h
  | cons r reads ih =>
      rw [List.length_cons]
      by_cases hnone : r.iRet ≤ 0
      · rw [loop_nothing reads iL hnone] at h
        exact Nat.lt_succ_of_lt (ih h)
      by_cases hrelease : isRelease r.first = true
      · -- The call it stops at is made, too.
        rw [loop_release reads iL hnone hrelease, Option.some.injEq, Prod.mk.injEq] at h
        rw [h.2]
        exact Nat.lt_succ_self _
      by_cases hpress : isPress r.first = true
      · rw [loop_press reads iL hnone hpress] at h
        exact Nat.lt_succ_of_lt (ih h)
      · rw [loop_other reads iL hnone hpress hrelease] at h
        exact Nat.lt_succ_of_lt (ih h)

/-- A call after which the loop goes on. -/
theorem sampled_cons {r : Read} {reads : List Read} {iL iL' : Int32 × Int32}
    (h : showTargetToLCD iL (r :: reads) = showTargetToLCD iL' reads) :
    sampled iL (r :: reads) =
      (sampled iL' reads).map fun found => (found.1, r.batch.length + found.2) := by
  unfold sampled
  rw [h]
  rcases hloop : showTargetToLCD iL' reads with _ | ⟨point, rest⟩
  · rfl
  · have hlen := showTargetToLCD_length hloop
    have htake : (r :: reads).length - (rest.length + 1)
        = reads.length - (rest.length + 1) + 1 := by
      rw [List.length_cons]
      omega
    simp only [Option.map_some, stoppedAt, htake, List.take_succ_cons, delivered, List.map_cons,
      List.flatten_cons, List.length_append]

/-- What the loop leaves when it stops at this position and has seen these leaders
    before. -/
def leave (iL : Int32 × Int32) (seen : Nat × List CookEvent) : (Int32 × Int32) × Nat :=
  ((lastPress seen.2).getD iL, seen.1)

/-- The loop sees the leaders of what comes, and no other event. -/
theorem sampled_leaders (reads : List Read) (iL : Int32 × Int32) (k : Nat) :
    (sampled iL reads).map (fun found => (found.1, k + found.2)) =
      (stopAt isRelease (leaders k (reads.map Read.batch))).map (leave iL) := by
  induction reads generalizing iL k with
  | nil => rfl
  | cons r reads ih =>
      -- A call after which the loop goes on only moves the positions.
      have hgo : ∀ iL', showTargetToLCD iL (r :: reads) = showTargetToLCD iL' reads →
          (sampled iL (r :: reads)).map (fun found => (found.1, k + found.2)) =
            (stopAt isRelease (leaders (k + r.batch.length) (reads.map Read.batch))).map
              (leave iL') := by
        intro iL' h
        rw [sampled_cons h, ← ih, Option.map_map]
        congr 1
        funext found
        simp only [Function.comp_apply, Nat.add_assoc]
      rw [List.map_cons]
      by_cases hnone : r.iRet ≤ 0
      · -- An empty batch has no leader.
        rw [hgo iL (loop_nothing reads iL hnone), batch_of_nonpos hnone]
        rfl
      rcases batch_of_pos hnone with ⟨rest, hbatch⟩
      have hlen : r.batch.length = rest.length + 1 := by rw [hbatch, List.length_cons]
      rw [hlen] at hgo
      rw [hbatch]
      simp only [leaders, stopAt]
      by_cases hrelease : isRelease r.first = true
      · -- Nothing came before this batch but the calls already made.
        rw [if_pos hrelease]
        unfold sampled
        rw [loop_release reads iL hnone hrelease]
        simp only [Option.map_some, stoppedAt, List.length_cons, Nat.sub_self, List.take_zero,
          delivered, List.map_nil, List.flatten_nil, List.length_nil, Nat.add_zero, leave, lastPress,
          List.filter_nil, List.getLast?_nil, Option.map_none, Option.getD_none]
      rw [if_neg hrelease, Option.map_map]
      by_cases hpress : isPress r.first = true
      · -- Its point is what the loop holds from then on.
        rw [hgo _ (loop_press reads iL hnone hpress)]
        congr 1
        funext seen
        simp only [Function.comp_apply, leave, lastPress_press hpress]
      · rw [hgo _ (loop_other reads iL hnone hpress hrelease)]
        congr 1
        funext seen
        simp only [Function.comp_apply, leave, lastPress_other hpress]

/-- The sample, from the leaders. -/
theorem sampled_eq (reads : List Read) (iL : Int32 × Int32) :
    sampled iL reads = (stopAt isRelease (leading reads)).map (leave iL) := by
  rw [leading, ← sampled_leaders]
  simp only [Nat.zero_add, Prod.mk.eta, Option.map_id_fun', id]

/-- The event at which the loop stops is a release. -/
theorem sampled_release {reads : List Read} {iL point : Int32 × Int32} {n : Nat}
    (h : sampled iL reads = some (point, n)) :
    ∃ e, (delivered reads)[n]? = some e ∧ isRelease e = true := by
  rw [sampled_eq, Option.map_eq_some_iff] at h
  rcases h with ⟨seen, hstop, heq⟩
  rw [← (Prod.mk.inj heq).2]
  exact (stopAt_leaders isRelease _ 0 seen.1 seen.2 hstop).2

/-- The sample of a sequence of events of which every one is looked at: the point
    of the last press before the first release. -/
def sample (iL : Int32 × Int32) (es : List CookEvent) : Option ((Int32 × Int32) × Nat) :=
  (es.findIdx? isRelease).map fun n => ((lastPress (es.take n)).getD iL, n)

/-- Only touches tell where the last press was. -/
theorem lastPress_filter (es : List CookEvent) : lastPress (es.filter isTouch) = lastPress es := by
  have hboth : (fun e => isPress e && isTouch e) = isPress := by
    funext e
    rw [Bool.and_eq_left_iff_imp]
    exact fun h => decide_eq_true (of_decide_eq_true h).1
  unfold lastPress
  rw [List.filter_filter, hboth]

/-- When every touch leads its batch, the sample is that of the events, however
    they are delivered. -/
theorem sampled_of_leading (reads : List Read) (iL : Int32 × Int32)
    (h : ∀ r ∈ reads, ∀ e ∈ r.batch.tail, isTouch e = false) :
    sampled iL reads = sample iL (delivered reads) := by
  have hquiet : ∀ batch ∈ reads.map Read.batch, ∀ e ∈ batch.tail, isTouch e = false := by
    intro batch hbatch
    rcases List.mem_map.mp hbatch with ⟨r, hr, rfl⟩
    exact h r hr
  have hseen := stopAt_leaders_of_quiet isRelease isTouch
    (fun e he => decide_eq_true (of_decide_eq_true he).1) (reads.map Read.batch) 0 hquiet
  have hpoint := congrArg (Option.map (leave iL)) hseen
  simp only [Option.map_map, Function.comp_def, leave, lastPress_filter, Nat.zero_add] at hpoint
  rw [sampled_eq]
  exact hpoint

/-- A way to deliver a sequence of events. -/
structure Delivery (es : List CookEvent) where
  reads : List Read
  delivered_eq : delivered reads = es

/-- Two samples stop at the same event, and leave the point of the last press
    before it. Two loops that both go on waiting are alike, even where there has
    been a release that neither of them has seen. -/
def SampledAlike (es : List CookEvent) (iL : Int32 × Int32) :
    Option ((Int32 × Int32) × Nat) → Option ((Int32 × Int32) × Nat) → Prop
  | none, none => True
  | some (point, n), some (point', n') =>
    n = n' ∧ point = (lastPress (es.take n)).getD iL ∧ point' = (lastPress (es.take n)).getD iL
  | none, some _ | some _, none => False

/-- In both deliveries the first release that leads a batch is the same event,
    and the last press that leads one before it is at the point of the last
    press before it. -/
def LeadersTell (es : List CookEvent) :
    Option (Nat × List CookEvent) → Option (Nat × List CookEvent) → Prop
  | none, none => True
  | some (n, before), some (n', before') =>
    n = n' ∧ lastPress before = lastPress (es.take n) ∧ lastPress before' = lastPress (es.take n)
  | none, some _ | some _, none => False

/-- Two points that are the same whatever stands in for a missing one are the
    same, or both missing. -/
theorem getD_forall_iff (a b : Option (Int32 × Int32)) :
    (∀ iL, a.getD iL = b.getD iL) ↔ a = b := by
  have hother : ∀ point : Int32 × Int32, ∃ iL, iL ≠ point := by
    intro point
    by_cases hzero : point = (0, 0)
    · exact ⟨(1, 0), by rw [hzero]; decide⟩
    · exact ⟨(0, 0), Ne.symm hzero⟩
  constructor
  · intro h
    cases a with
    | none =>
        cases b with
        | none => rfl
        | some point =>
            -- Something else stands in for the missing one.
            rcases hother point with ⟨iL, hne⟩
            exact absurd (h iL) hne
    | some point =>
        cases b with
        | none =>
            rcases hother point with ⟨iL, hne⟩
            exact absurd (h iL).symm hne
        | some point' => exact congrArg some (h (0, 0))
  · rintro rfl iL
    rfl

/-- Two deliveries of the same events are sampled alike, whatever the coordinates
    held before, exactly when their leaders tell the same as the events. Two
    deliveries that both go on waiting count as alike although the events may
    hold a release: then it leads a batch in neither. -/
theorem sampled_alike_iff {es : List CookEvent} (d d' : Delivery es) :
    (∀ iL, SampledAlike es iL (sampled iL d.reads) (sampled iL d'.reads)) ↔
      LeadersTell es (stopAt isRelease (leading d.reads)) (stopAt isRelease (leading d'.reads)) := by
  simp only [sampled_eq]
  -- A loop has stopped if a release leads a batch.
  rcases stopAt isRelease (leading d.reads) with _ | ⟨n, before⟩
  · rcases stopAt isRelease (leading d'.reads) with _ | ⟨n', before'⟩
    · exact ⟨fun _ => trivial, fun _ _ => trivial⟩
    · exact ⟨fun h => h (0, 0), fun h => h.elim⟩
  · rcases stopAt isRelease (leading d'.reads) with _ | ⟨n', before'⟩
    · exact ⟨fun h => h (0, 0), fun h => h.elim⟩
    · -- Both have stopped, and the points must agree for whatever was held.
      simp only [Option.map_some, leave, SampledAlike, LeadersTell, ← getD_forall_iff]
      constructor
      · exact fun h => ⟨(h (0, 0)).1, fun iL => (h iL).2.1, fun iL => (h iL).2.2⟩
      · exact fun h iL => ⟨h.1, h.2.1 iL, h.2.2 iL⟩

/-- A touch at a point. -/
def touchEvent (iX iY iPressure : Int32) : CookEvent :=
  { tTime := ⟨0, 0⟩, filePath := 0, iType := touchscreen, iX, iY, iKey := 0, iPressure,
    iTrackID := 0, iTouchMajor := 0 }

/-- A call that brings these events, or as many of them as it has room for. -/
def Read.ofBatch (batch : List CookEvent) : Read :=
  { iRet := (batch.take 128).length
    cookEvent := batch.take 128 ++ List.replicate (128 - batch.length) (touchEvent 0 0 0)
    length_eq := by
      rw [List.length_append, List.length_replicate, List.length_take]
      omega
    iRet_le := by
      rw [List.length_take]
      omega }

/-- A press and its release, in one batch and in two. -/
def together : Delivery [touchEvent 3 4 1, touchEvent 3 4 0] :=
  { reads := [.ofBatch [touchEvent 3 4 1, touchEvent 3 4 0]]
    delivered_eq := rfl }

def apart : Delivery [touchEvent 3 4 1, touchEvent 3 4 0] :=
  { reads := [.ofBatch [touchEvent 3 4 1], .ofBatch [touchEvent 3 4 0]]
    delivered_eq := rfl }

/-- A release in the batch of its press is not seen. -/
theorem together_unseen :
    ¬ ∀ iL : Int32 × Int32,
      SampledAlike [touchEvent 3 4 1, touchEvent 3 4 0] iL (sampled iL together.reads)
        (sampled iL apart.reads) := by
  intro h
  have htogether : sampled (0, 0) together.reads = none := by decide +kernel
  have hapart : sampled (0, 0) apart.reads = some ((3, 4), 1) := by decide +kernel
  have halike := h (0, 0)
  rw [htogether, hapart] at halike
  exact halike

end Calibrate

end ZeusOS
