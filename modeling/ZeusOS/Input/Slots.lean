import Mathlib.Tactic.Ring
import ZeusOS.Input.Decoding

/-!
# The Slots of a Call

What one call of `process` does to the array it is handed, for whatever `read`
came back with and whatever the array held.

A call that gets as far as the loop with a size it has checked stays inside:
it looks at the events that were read and at nothing else, and writes no slot
past the last it was given. After `EAGAIN` and `EINTR` it gets there with the
size minus one.

A frame sets the fields its events are about and leaves the others as they
were, and nobody has cleared the slot. And a call that runs out of slots
returns, with the rest of what it read.

## Main definitions

* `ReadOutcome`: What `read` can come back with.
* `readOf`: A read of whole events.
* `Frame.Sets`: The fields of a slot that a frame decides.
* `decode`: Calls one after another, each on an array of its own contents.
* `reports`, `StandsFor`: The reports of a stream, and the events for them.

## Theorems

* `processLoop_slots`: What the loop does to the array.
* `stays_inside_iff`: When a call stays in its buffers.
* `decoded_alike_iff`: When two arrays make no difference.
* `decode_segments`: Calls cook the frames of their reads.
* `frames_kept_iff`: When no frame is lost.
-/

namespace ZeusOS

namespace Input

open Foundation.Segments

theorem write_slots {f : CookEvent → CookEvent} {d d' : Decoder} (h : d.write f = some d') :
    d'.iRet = d.iRet ∧ d'.cookEvent.length = d.cookEvent.length ∧
      ∀ n, d.iRet < n → d'.cookEvent.drop n = d.cookEvent.drop n := by
  unfold Decoder.write at h
  by_cases hroom : d.iRet < d.cookEvent.length
  · rw [if_pos hroom, Option.some.injEq] at h
    rw [← h]
    exact ⟨rfl, List.length_modify _ _ _, fun n hn => List.drop_modify_of_lt _ _ _ _ hn⟩
  · rw [if_neg hroom] at h
    cases h

/-- One event changes at most the slot at hand, and only a report goes on to the
    next. -/
theorem handle_slots {clock : Nat → Timeval} {iev : InputEvent} {d d' : Decoder}
    (h : d.handle clock iev = some d') :
    d'.cookEvent.length = d.cookEvent.length ∧
      (∀ n, d.iRet < n → d'.cookEvent.drop n = d.cookEvent.drop n) ∧
        (d'.iRet = d.iRet ∨ iev.isReport = true ∧ d'.iRet = d.iRet + 1) := by
  unfold Decoder.handle at h
  by_cases habs : iev.type = evAbs
  · rw [if_pos habs, Option.map_eq_some_iff] at h
    rcases h with ⟨d₁, hwrite, rfl⟩
    rcases write_slots hwrite with ⟨hcount, hlength, hslots⟩
    exact ⟨hlength, hslots, Or.inl hcount⟩
  rw [if_neg habs] at h
  by_cases hkey : iev.type = evKey
  · rw [if_pos hkey] at h
    rcases write_slots h with ⟨hcount, hlength, hslots⟩
    exact ⟨hlength, hslots, Or.inl hcount⟩
  rw [if_neg hkey] at h
  by_cases hreport : iev.isReport = true
  · rw [if_pos hreport, Option.map_eq_some_iff] at h
    rcases h with ⟨d₁, hwrite, rfl⟩
    rcases write_slots hwrite with ⟨hcount, hlength, hslots⟩
    exact ⟨hlength, hslots, Or.inr ⟨hreport, congrArg (· + 1) hcount⟩⟩
  · rw [if_neg hreport, Option.some.injEq] at h
    rw [← h]
    exact ⟨rfl, fun _ _ => rfl, Or.inl rfl⟩

/-- The loop writes the slots from the one at hand to the last it may fill, and
    returns with a count of those. -/
theorem processLoop_slots {clock : Nat → Timeval} {iSize : Nat} {events : List InputEvent}
    {count : Nat} {d d' : Decoder} (hd : d.iRet < iSize)
    (h : processLoop clock iSize events count d = some d') :
    d'.cookEvent.length = d.cookEvent.length ∧
      d'.cookEvent.drop iSize = d.cookEvent.drop iSize ∧ d'.iRet ≤ iSize := by
  induction count generalizing events d with
  | zero =>
      rw [processLoop, Option.some.injEq] at h
      rw [← h]
      exact ⟨rfl, rfl, Nat.le_of_lt hd⟩
  | succ count ih =>
      cases events with
      | nil => cases h
      | cons iev events =>
          rw [processLoop, Option.bind_eq_some_iff] at h
          rcases h with ⟨d₁, hhandle, h⟩
          rcases handle_slots hhandle with ⟨hlength, hslots, hcount⟩
          have hkept : d₁.cookEvent.drop iSize = d.cookEvent.drop iSize := hslots iSize hd
          by_cases hfull : iev.isReport ∧ (d₁.iRet : Int) = iSize
          · rw [if_pos hfull, Option.some.injEq] at h
            rw [← h]
            exact ⟨hlength, hkept, by omega⟩
          · -- The count has not got to the last slot, or this was no report.
            rw [if_neg hfull] at h
            have hd₁ : d₁.iRet < iSize := by
              rcases hcount with hsame | ⟨hreport, hnext⟩
              · omega
              · have hne : (d₁.iRet : Int) ≠ iSize := fun heq => hfull ⟨hreport, heq⟩
                omega
            rcases ih hd₁ h with ⟨hlength', hkept', hle⟩
            exact ⟨hlength'.trans hlength, hkept'.trans hkept, hle⟩

/-- What `read` can come back with, for a buffer of 256 events: an error, or a
    number of bytes, in which so many whole events were stored. -/
structure ReadOutcome (r : ReadResult) : Prop where
  error : -1 ≤ r.readSize.toInt
  size : r.readSize.toInt ≤ 4096
  filled : r.filled.length = r.readSize.toInt.toNat / 16

/-- A read of whole events. -/
def readOf (events : List InputEvent) (errno : Int32) : ReadResult :=
  { readSize := Int32.ofNat (inputEventSize.toNat * events.length), errno, filled := events }

/-- A read that the loop is given to look through is one of whole events. -/
theorem whole_read {r : ReadResult} (hr : ReadOutcome r) (hpos : 0 < r.readSize.toInt)
    (hwhole : r.readSize.toUInt32 % inputEventSize = 0) :
    1 ≤ r.filled.length ∧ r.filled.length ≤ 256 ∧ r = readOf r.filled r.errno := by
  have hsize := hr.size
  have hfilled := hr.filled
  have hnat : r.readSize.toUInt32.toNat = r.readSize.toInt.toNat :=
    Int32.toNat_toUInt32_of_le (Int32.le_iff_toInt_le.mpr (by rw [Int32.toInt_zero]; omega))
  have hmod : r.readSize.toInt.toNat % 16 = 0 := by
    rw [← UInt32.toNat_inj, UInt32.toNat_mod, hnat] at hwhole
    exact hwhole
  have hread : r.readSize = Int32.ofNat (16 * r.filled.length) := by
    have hlt : 16 * r.filled.length < 2 ^ 31 := by omega
    rw [← Int32.toInt_inj, Int32.toInt_ofNat_of_lt hlt]
    omega
  refine ⟨by omega, by omega, ?_⟩
  rw [readOf]
  change r = { readSize := Int32.ofNat (16 * r.filled.length), errno := r.errno, filled := r.filled }
  rw [← hread]

/-- A call on whole events stays in its buffers. -/
theorem readOf_inside (clock : Nat → Timeval) {events : List InputEvent} (errno : Int32)
    (hone : 1 ≤ events.length) (hfits : events.length ≤ 256) {cookEvent : List CookEvent}
    {iSize : Nat} (hpos : 1 ≤ iSize) (hsize : iSize ≤ cookEvent.length) (iFlagPressure : Int32) :
    ∃ p, process (readOf events errno) clock cookEvent iSize iFlagPressure = some p ∧
      p.cookEvent.length = cookEvent.length ∧
      p.cookEvent.drop iSize = cookEvent.drop iSize ∧ 0 ≤ p.iRet ∧ p.iRet ≤ iSize := by
  have hcall := process_call ⟨0, events, errno, clock, hone, hfits⟩ cookEvent iSize iFlagPressure
  rcases process_segments ⟨0, events, errno, clock, hone, hfits⟩ hpos hsize iFlagPressure
    with ⟨p, hp, _⟩
  have hloop := hp
  rw [hcall, Option.map_eq_some_iff] at hloop
  rcases hloop with ⟨d, hd, rfl⟩
  rcases processLoop_slots hpos hd with ⟨hlength, hkept, hle⟩
  exact ⟨_, hp, hlength, hkept, Int.natCast_nonneg _, Int.ofNat_le.mpr hle⟩

/-- An error returns minus one, unless it is one of the two the code goes on
    after. -/
theorem process_error {r : ReadResult} (hneg : r.readSize = -1)
    (hother : ¬ (r.errno = eagain ∨ r.errno = eintr)) (clock : Nat → Timeval)
    (cookEvent : List CookEvent) (iSize : Int) (iFlagPressure : Int32) :
    process r clock cookEvent iSize iFlagPressure = some ⟨-1, cookEvent, iFlagPressure⟩ := by
  have hlt : r.readSize < 0 := by
    rw [hneg]
    decide
  rw [not_or] at hother
  unfold process
  by_cases hgone : r.errno = enodev
  · rw [if_pos (Or.inr ⟨hlt, hgone⟩)]
  · have hnonzero : ¬ (r.readSize = 0 ∨ r.readSize < 0 ∧ r.errno = enodev) := by
      rintro (hzero | ⟨_, hc⟩)
      · rw [hneg] at hzero
        exact absurd hzero (by decide)
      · exact hgone hc
    rw [if_neg hnonzero, if_pos ⟨hlt, hother.1, hother.2⟩]

/-- After one of those two the size is taken for a quarter of a billion events,
    and there is not one. -/
theorem process_interrupted {r : ReadResult} (hneg : r.readSize = -1) (hfilled : r.filled = [])
    (hintr : r.errno = eagain ∨ r.errno = eintr) (clock : Nat → Timeval)
    (cookEvent : List CookEvent) (iSize : Int) (iFlagPressure : Int32) :
    process r clock cookEvent iSize iFlagPressure = none := by
  have hgone : r.errno ≠ enodev := by
    rcases hintr with h | h
    · rw [h]
      decide
    · rw [h]
      decide
  have hfirst : ¬ (r.readSize = 0 ∨ r.readSize < 0 ∧ r.errno = enodev) := by
    rintro (hzero | ⟨_, hc⟩)
    · rw [hneg] at hzero
      exact absurd hzero (by decide)
    · exact hgone hc
  have hsecond : ¬ (r.readSize < 0 ∧ r.errno ≠ eagain ∧ r.errno ≠ eintr) := by
    rintro ⟨_, hagain, hint⟩
    exact hintr.elim hagain hint
  have hthird : ¬ (¬ r.readSize < 0 ∧ r.readSize.toUInt32 % inputEventSize ≠ 0) := by
    rintro ⟨hnonneg, _⟩
    rw [hneg] at hnonneg
    exact hnonneg (by decide)
  have hcount : ((-1 : Int32).toUInt32 / inputEventSize).toNat = 268435454 + 1 := by decide
  rw [process, if_neg hfirst, if_neg hsecond, if_neg hthird, hneg, hcount, hfilled]
  rfl

/-- Whatever `read` comes back with, a call returns minus one or a count of
    slots, having looked at the events that were read and at none behind them,
    and written no slot but the first `iSize`, exactly if the read did not fail
    with `EAGAIN` or `EINTR`. -/
theorem stays_inside_iff {r : ReadResult} (hr : ReadOutcome r) (clock : Nat → Timeval)
    {cookEvent : List CookEvent} {iSize : Nat} (hone : 1 ≤ iSize) (hsize : iSize ≤ cookEvent.length)
    (iFlagPressure : Int32) :
    (∃ p, process r clock cookEvent iSize iFlagPressure = some p ∧
        p.cookEvent.length = cookEvent.length ∧
        p.cookEvent.drop iSize = cookEvent.drop iSize ∧
        (p.iRet = -1 ∨ 0 ≤ p.iRet ∧ p.iRet ≤ iSize)) ↔
      ¬ (r.readSize = -1 ∧ (r.errno = eagain ∨ r.errno = eintr)) := by
  constructor
  · rintro ⟨p, hp, _⟩ ⟨hneg, hintr⟩
    have hfilled : r.filled = [] := by
      rw [← List.length_eq_zero_iff, hr.filled, hneg]
      rfl
    rw [process_interrupted hneg hfilled hintr] at hp
    cases hp
  · intro hok
    by_cases hneg : r.readSize = -1
    · have hother : ¬ (r.errno = eagain ∨ r.errno = eintr) := fun h => hok ⟨hneg, h⟩
      exact ⟨_, process_error hneg hother _ _ _ _, rfl, rfl, Or.inl rfl⟩
    by_cases hzero : r.readSize = 0
    · refine ⟨⟨-1, cookEvent, iFlagPressure⟩, ?_, rfl, rfl, Or.inl rfl⟩
      rw [process, if_pos (Or.inl hzero)]
    -- Something was read: whole events, or something that is turned down.
    have hpos : 0 < r.readSize.toInt := by
      have herror := hr.error
      rw [← Int32.toInt_inj] at hneg hzero
      change r.readSize.toInt ≠ -1 at hneg
      change r.readSize.toInt ≠ 0 at hzero
      omega
    have hnonneg : ¬ r.readSize < 0 := by
      rw [Int32.lt_iff_toInt_lt, Int32.toInt_zero]
      omega
    by_cases hwhole : r.readSize.toUInt32 % inputEventSize = 0
    · rcases whole_read hr hpos hwhole with ⟨hevents, hfits, heq⟩
      rw [heq]
      rcases readOf_inside clock r.errno hevents hfits hone hsize iFlagPressure
        with ⟨p, hp, hlength, hkept, hcount⟩
      exact ⟨p, hp, hlength, hkept, Or.inr hcount⟩
    · refine ⟨⟨-1, cookEvent, iFlagPressure⟩, ?_, rfl, rfl, Or.inl rfl⟩
      rw [process, if_neg (not_or.mpr ⟨hzero, fun h => hnonneg h.1⟩), if_neg fun h => hnonneg h.1,
        if_pos ⟨hnonneg, hwhole⟩]

/-- A read of one event. -/
theorem stays_inside_iff_report :
    (∃ p, process (readOf [⟨evSyn, synReport, 0⟩] 0) (fun _ => ⟨0, 0⟩) (zeroed 1) 1 0 = some p ∧
        p.cookEvent.length = (zeroed 1).length ∧
        p.cookEvent.drop 1 = (zeroed 1).drop 1 ∧ (p.iRet = -1 ∨ 0 ≤ p.iRet ∧ p.iRet ≤ 1)) ↔
      ¬ ((16 : Int32) = -1 ∧ ((0 : Int32) = eagain ∨ (0 : Int32) = eintr)) :=
  stays_inside_iff ⟨by decide, by decide, by decide⟩ _ (Nat.le_refl 1)
    (Nat.le_of_eq List.length_replicate.symm) 0

/-- An interrupted read. -/
theorem interrupted_outside : ¬ ∀ (r : ReadResult) (clock : Nat → Timeval)
    (cookEvent : List CookEvent) (iSize : Nat) (iFlagPressure : Int32), ReadOutcome r →
      1 ≤ iSize → iSize ≤ cookEvent.length →
        ∃ p, process r clock cookEvent iSize iFlagPressure = some p := by
  intro h
  rcases h ⟨-1, eintr, []⟩ (fun _ => ⟨0, 0⟩) (zeroed 128) 128 0 ⟨by decide, by decide, by decide⟩
    (by decide) (Nat.le_of_eq List.length_replicate.symm) with ⟨p, hp⟩
  rw [process_interrupted rfl rfl (Or.inr rfl)] at hp
  cases hp

/-- A frame decides what a field of its slot is: one of its events gives a
    value, or its report takes the pressure back. -/
def Frame.Sets (F : Frame) (f : Field) : Prop :=
  (f = .pressure ∧ F.tally = 2) ∨ ∃ iev ∈ F.items, (iev.writes f).isSome

theorem lastWrite_isSome {f : Field} {items : List InputEvent} :
    (lastWrite f items).isSome ↔ ∃ iev ∈ items, (iev.writes f).isSome := by
  have hnone : List.filterMap (·.writes f) items = [] ↔ ∀ iev ∈ items, iev.writes f = none :=
    List.filterMap_eq_nil_iff
  rw [lastWrite, List.getLast?_isSome, ne_eq, hnone]
  push Not
  exact exists_congr fun iev => and_congr_right fun _ => Option.isSome_iff_ne_none.symm

/-- Two slots cooked by one frame agree in a field exactly if it sets the field
    or they agreed before. -/
theorem carried_eq_iff (F : Frame) (slot slot' : CookEvent) (f : Field) :
    F.carried slot f = F.carried slot' f ↔ F.Sets f ∨ slot.get f = slot'.get f := by
  unfold Frame.carried Frame.Sets
  rw [← lastWrite_isSome]
  by_cases hreleased : f = .pressure ∧ F.tally = 2
  · rw [if_pos hreleased, if_pos hreleased]
    exact iff_of_true rfl (Or.inl (Or.inl hreleased))
  rw [if_neg hreleased, if_neg hreleased]
  cases hwrite : lastWrite f F.items with
  | none => simp only [Option.getD_none, hreleased, Option.isSome_none, Bool.false_eq_true, or_self, false_or]
  | some w => simp only [Option.getD_some, Option.isSome_some, or_true, true_or]

theorem zip_carried_iff {fs : List Frame} {slots slots' : List CookEvent}
    (hlength : fs.length ≤ slots.length) (hlength' : fs.length ≤ slots'.length) :
    ((fs.zip slots).map fun v => v.1.carried v.2) = ((fs.zip slots').map fun v => v.1.carried v.2) ↔
      ∀ v ∈ fs.zip (slots.zip slots'), ∀ f, v.1.Sets f ∨ v.2.1.get f = v.2.2.get f := by
  induction fs generalizing slots slots' with
  | nil => exact iff_of_true rfl fun v hv => absurd hv List.not_mem_nil
  | cons F fs ih =>
      -- There is a slot for every frame in either array.
      rcases slots with _ | ⟨slot, slots⟩
      · exact absurd hlength (Nat.not_succ_le_zero _)
      rcases slots' with _ | ⟨slot', slots'⟩
      · exact absurd hlength' (Nat.not_succ_le_zero _)
      rw [List.zip_cons_cons, List.zip_cons_cons, List.zip_cons_cons, List.zip_cons_cons,
        List.map_cons, List.map_cons, List.cons.injEq, List.forall_mem_cons,
        ih (Nat.le_of_succ_le_succ hlength) (Nat.le_of_succ_le_succ hlength'), funext_iff]
      exact and_congr_left fun _ => forall_congr' fun f => carried_eq_iff F slot slot' f

/-- What a call makes of its read, field by field. -/
theorem process_carried (events : List InputEvent) (hfits : events.length ≤ 256) (errno : Int32)
    (clock : Nat → Timeval) {cookEvent : List CookEvent} {iSize : Nat} (hone : 1 ≤ iSize)
    (hsize : iSize ≤ cookEvent.length) (iFlagPressure : Int32) :
    ∃ p, process (readOf events errno) clock cookEvent iSize iFlagPressure = some p ∧
      p.iRet = (if events = [] then -1
        else ((frames [] iFlagPressure (examined iSize events)).length : Int)) ∧
      p.returned.map CookEvent.get
        = ((frames [] iFlagPressure (examined iSize events)).zip cookEvent).map
          fun v => v.1.carried v.2 := by
  by_cases hnone : events = []
  · subst hnone
    refine ⟨⟨-1, cookEvent, iFlagPressure⟩, rfl, rfl, ?_⟩
    rw [examined, upTo_nil]
    rfl
  · have hpos : 1 ≤ events.length := List.length_pos_iff.mpr hnone
    rcases process_segments ⟨0, events, errno, clock, hpos, hfits⟩ hone hsize iFlagPressure
      with ⟨p, hp, _, hcount, hslots⟩
    refine ⟨p, hp, by rw [if_neg hnone, hcount], ?_⟩
    have hget := congrArg (List.map CookEvent.get) hslots
    rw [List.map_map] at hget
    simp only [Function.comp_def, get_timeless] at hget
    rw [hget, ← List.map_uncurry_zip_eq_zipWith, List.map_map]
    exact List.map_congr_left fun v _ => funext fun f => get_cooked v.1 v.2 f

/-- What two calls on the same read return, in arrays of whatever contents: as
    many events, and the same in every field of each exactly if its frame sets
    the field or the two slots agreed in it. -/
theorem decoded_alike_iff (events : List InputEvent) (hfits : events.length ≤ 256) (errno : Int32)
    (clock clock' : Nat → Timeval) {cookEvent cookEvent' : List CookEvent} {iSize : Nat}
    (hone : 1 ≤ iSize) (hsize : iSize ≤ cookEvent.length) (hsize' : iSize ≤ cookEvent'.length)
    (iFlagPressure : Int32) :
    ∃ p q, process (readOf events errno) clock cookEvent iSize iFlagPressure = some p ∧
      process (readOf events errno) clock' cookEvent' iSize iFlagPressure = some q ∧
      p.iRet = q.iRet ∧
      (p.returned.map CookEvent.get = q.returned.map CookEvent.get ↔
        ∀ v ∈ (frames [] iFlagPressure (examined iSize events)).zip (cookEvent.zip cookEvent'),
          ∀ f, v.1.Sets f ∨ v.2.1.get f = v.2.2.get f) := by
  rcases process_carried events hfits errno clock hone hsize iFlagPressure
    with ⟨p, hp, hcount, hslots⟩
  rcases process_carried events hfits errno clock' hone hsize' iFlagPressure
    with ⟨q, hq, hcount', hslots'⟩
  refine ⟨p, q, hp, hq, hcount.trans hcount'.symm, ?_⟩
  rw [hslots, hslots']
  have hlength : (frames [] iFlagPressure (examined iSize events)).length ≤ iSize := by
    rw [frames_length]
    exact countP_upTo_le iSize events
  generalize frames [] iFlagPressure (examined iSize events) = fs at hlength ⊢
  exact zip_carried_iff (Nat.le_trans hlength hsize) (Nat.le_trans hlength hsize')

theorem decoded_alike_iff_moves :
    ∃ p q, process (readOf (moves 5) 0) (fun _ => ⟨0, 0⟩) (zeroed 2) 2 0 = some p ∧
      process (readOf (moves 5) 0) (fun _ => ⟨1, 0⟩) (zeroed 3) 2 0 = some q ∧
      p.iRet = q.iRet ∧
      (p.returned.map CookEvent.get = q.returned.map CookEvent.get ↔
        ∀ v ∈ (frames [] 0 (examined 2 (moves 5))).zip ((zeroed 2).zip (zeroed 3)),
          ∀ f, v.1.Sets f ∨ v.2.1.get f = v.2.2.get f) :=
  decoded_alike_iff (moves 5) (by decide) 0 _ _ (by decide)
    (Nat.le_of_eq List.length_replicate.symm) (show 2 ≤ 3 by decide) 0

/-- A position in one direction: the other is what the slot held. -/
theorem slot_shows : ¬ ∀ (events : List InputEvent) (errno : Int32) (clock : Nat → Timeval)
    (cookEvent cookEvent' : List CookEvent) (iSize : Nat) (iFlagPressure : Int32) (p q : Processed),
      events.length ≤ 256 → 1 ≤ iSize → iSize ≤ cookEvent.length → iSize ≤ cookEvent'.length →
        process (readOf events errno) clock cookEvent iSize iFlagPressure = some p →
          process (readOf events errno) clock cookEvent' iSize iFlagPressure = some q →
            p.returned.map CookEvent.iY = q.returned.map CookEvent.iY := by
  intro h
  have hsame := h (moves 5) 0 (fun _ => ⟨0, 0⟩) (zeroed 1)
    [⟨⟨0, 0⟩, 0, 0, 0, 7, 0, 0, 0, 0⟩] 1 0 _ _ (by decide) (by decide) (by decide) (by decide) rfl rfl
  exact absurd hsame (by decide)

/-- Calls one after another, each with the array it is handed: what each
    returns. -/
def decode (iSize : Int) : Int32 → List (List CookEvent × Call) → Option (List (List CookEvent))
  | _, [] => some []
  | iFlagPressure, (cookEvent, c) :: calls =>
    (process c.result c.clock cookEvent iSize iFlagPressure).bind fun p =>
      (decode iSize p.iFlagPressure calls).map (p.returned :: ·)

/-- Everything that was read. -/
def stream (calls : List (List CookEvent × Call)) : List InputEvent :=
  calls.flatMap fun v => v.2.events

theorem decode_segments {iSize : Nat} (hone : 1 ≤ iSize) (iFlagPressure : Int32)
    {calls : List (List CookEvent × Call)} (hsize : ∀ v ∈ calls, iSize ≤ v.1.length) :
    ∃ out, decode iSize iFlagPressure calls = some out ∧
      out.map (List.map CookEvent.timeless)
        = List.zipWith (List.zipWith Frame.cooked)
          (allFrames iSize iFlagPressure (calls.map Prod.snd)) (calls.map Prod.fst) := by
  induction calls generalizing iFlagPressure with
  | nil => exact ⟨[], rfl, rfl⟩
  | cons v calls ih =>
      rcases process_segments v.2 hone (hsize v List.mem_cons_self) iFlagPressure
        with ⟨p, hp, hflag, _, hslots⟩
      rcases ih p.iFlagPressure fun w hw => hsize w (List.mem_cons_of_mem _ hw)
        with ⟨out, hout, hrest⟩
      refine ⟨p.returned :: out, ?_, ?_⟩
      · rw [decode, hp, Option.bind_some, hout]
        rfl
      · rw [List.map_cons, hslots, hrest, hflag]
        rfl

/-- What was read up to each report, since the report before it or the start of
    the read: one list for every report there was. -/
def reports (calls : List (List CookEvent × Call)) : List (List InputEvent) :=
  calls.flatMap fun v => (frames [] 0 v.2.events).map Segment.items

/-- The event is what a report behind these events leaves in one of the slots. -/
def StandsFor (slots : List CookEvent) (items : List InputEvent) (e : CookEvent) : Prop :=
  ∃ slot ∈ slots, ∃ iFlagPressure now,
    e = report iFlagPressure now (items.foldl (fun e iev => cook iev e) slot)

theorem standsFor_of_cooked {F : Frame} {slot e : CookEvent} {slots : List CookEvent}
    (hslot : slot ∈ slots) (h : e.timeless = F.cooked slot) : StandsFor slots F.items e := by
  refine ⟨slot, hslot, F.tally, e.tTime, ?_⟩
  -- Only the time was taken off on either side.
  have htime : ∀ e' : CookEvent, e' = { e'.timeless with tTime := e'.tTime } := fun _ => rfl
  rw [htime e, h]
  rfl

/-- One call: an event for each of the frames it was shown, in order. -/
theorem forall₂_standsFor {fs : List Frame} {slots es : List CookEvent}
    (hlength : fs.length ≤ slots.length)
    (h : es.map CookEvent.timeless = List.zipWith Frame.cooked fs slots) :
    List.Forall₂ (StandsFor slots) (fs.map Segment.items) es := by
  have hmono : ∀ {slot : CookEvent} {slots : List CookEvent} {items : List InputEvent} {e : CookEvent},
      StandsFor slots items e → StandsFor (slot :: slots) items e := by
    rintro _ _ _ _ ⟨slot, hslot, hrest⟩
    exact ⟨slot, List.mem_cons_of_mem _ hslot, hrest⟩
  induction fs generalizing slots es with
  | nil =>
      rw [List.zipWith_nil_left, List.map_eq_nil_iff] at h
      rw [h]
      exact List.Forall₂.nil
  | cons F fs ih =>
      rcases slots with _ | ⟨slot, slots⟩
      · exact absurd hlength (Nat.not_succ_le_zero _)
      rcases es with _ | ⟨e, es⟩
      · cases h
      rw [List.map_cons, List.zipWith_cons_cons, List.cons.injEq] at h
      refine List.Forall₂.cons (standsFor_of_cooked List.mem_cons_self h.1) ?_
      exact (ih (Nat.le_of_succ_le_succ hlength) h.2).imp fun _ _ => hmono

theorem sum_min_le (n : Nat) (cs : List Nat) : (cs.map (min n)).sum ≤ cs.sum := by
  induction cs with
  | nil => exact Nat.le_refl 0
  | cons c cs ih =>
      rw [List.map_cons, List.sum_cons, List.sum_cons]
      omega

/-- Nothing is cut off a sum of counts exactly if nothing is cut off a count. -/
theorem sum_min_eq_iff (n : Nat) (cs : List Nat) :
    (cs.map (min n)).sum = cs.sum ↔ ∀ c ∈ cs, c ≤ n := by
  induction cs with
  | nil => exact iff_of_true rfl fun c hc => absurd hc List.not_mem_nil
  | cons c cs ih =>
      have hle := sum_min_le n cs
      rw [List.forall_mem_cons, ← ih, List.map_cons, List.sum_cons, List.sum_cons]
      omega

/-- The first of some calls, and the rest. -/
theorem decode_cons {iSize : Nat} (hone : 1 ≤ iSize) {iFlagPressure : Int32}
    {v : List CookEvent × Call} {calls : List (List CookEvent × Call)} (hv : iSize ≤ v.1.length)
    {out : List (List CookEvent)} (h : decode iSize iFlagPressure (v :: calls) = some out) :
    ∃ (p : Processed) (rest : List (List CookEvent)), out = p.returned :: rest ∧ decode iSize p.iFlagPressure calls = some rest ∧
      p.returned.map CookEvent.timeless
        = List.zipWith Frame.cooked (frames [] iFlagPressure (examined iSize v.2.events)) v.1 := by
  rw [decode, Option.bind_eq_some_iff] at h
  rcases h with ⟨p, hp, h⟩
  rw [Option.map_eq_some_iff] at h
  rcases h with ⟨rest, hrest, rfl⟩
  rcases process_segments v.2 hone hv iFlagPressure with ⟨p', hp', _, _, hslots⟩
  rw [hp, Option.some.injEq] at hp'
  subst hp'
  exact ⟨p, rest, rfl, hrest, hslots⟩

/-- A run of calls returns so many events as there were reports that found a
    slot. -/
theorem decode_length {iSize : Nat} (hone : 1 ≤ iSize) {iFlagPressure : Int32}
    {calls : List (List CookEvent × Call)} (hsize : ∀ v ∈ calls, iSize ≤ v.1.length)
    {out : List (List CookEvent)} (h : decode iSize iFlagPressure calls = some out) :
    out.flatten.length
      = ((calls.map fun v => v.2.events.countP InputEvent.isReport).map (min iSize)).sum := by
  induction calls generalizing iFlagPressure out with
  | nil =>
      rw [decode, Option.some.injEq] at h
      rw [← h]
      rfl
  | cons v calls ih =>
      have hv := hsize v List.mem_cons_self
      rcases decode_cons hone hv h with ⟨p, rest, rfl, hrest, hslots⟩
      have hlength := congrArg List.length hslots
      have hcount : (frames [] iFlagPressure (examined iSize v.2.events)).length
          = min iSize (v.2.events.countP InputEvent.isReport) := by
        rw [frames_length]
        exact countP_upTo iSize _
      rw [List.length_map, List.length_zipWith, hcount] at hlength
      rw [List.flatten_cons, List.length_append,
        ih (fun w hw => hsize w (List.mem_cons_of_mem _ hw)) hrest, List.map_cons, List.map_cons,
        List.sum_cons]
      omega

/-- Calls none of which runs out of slots: an event for every report, in
    order. -/
theorem decode_standsFor {iSize : Nat} (hone : 1 ≤ iSize) {iFlagPressure : Int32}
    {calls : List (List CookEvent × Call)} (hsize : ∀ v ∈ calls, iSize ≤ v.1.length)
    (hcount : ∀ v ∈ calls, v.2.events.countP InputEvent.isReport ≤ iSize)
    {out : List (List CookEvent)} (h : decode iSize iFlagPressure calls = some out) :
    List.Forall₂ (fun items e => ∃ v ∈ calls, StandsFor v.1 items e) (reports calls)
      out.flatten := by
  induction calls generalizing iFlagPressure out with
  | nil =>
      rw [decode, Option.some.injEq] at h
      rw [← h]
      exact List.Forall₂.nil
  | cons v calls ih =>
      have hv := hsize v List.mem_cons_self
      have hvcount := hcount v List.mem_cons_self
      rcases decode_cons hone hv h with ⟨p, rest, rfl, hrest, hslots⟩
      -- With no more reports than slots the whole read is looked at.
      have hwhole : frames [] iFlagPressure (examined iSize v.2.events)
          = frames [] iFlagPressure v.2.events := upTo_of_count_le [] _ hvcount
      have hlength : (frames [] iFlagPressure v.2.events).length ≤ v.1.length := by
        rw [frames_length]
        exact Nat.le_trans hvcount hv
      rw [hwhole] at hslots
      have hreports : reports (v :: calls)
          = (frames [] iFlagPressure v.2.events).map Segment.items ++ reports calls := by
        rw [frames_items]
        exact List.flatMap_cons
      have hrest' := ih (fun w hw => hsize w (List.mem_cons_of_mem _ hw))
        (fun w hw => hcount w (List.mem_cons_of_mem _ hw)) hrest
      rw [hreports, List.flatten_cons]
      refine List.rel_append ?_ ?_
      · exact (forall₂_standsFor hlength hslots).imp fun _ _ h => ⟨v, List.mem_cons_self, h⟩
      · refine hrest'.imp fun _ _ h => ?_
        rcases h with ⟨w, hw, h⟩
        exact ⟨w, List.mem_cons_of_mem _ hw, h⟩

/-- However a stream is cut into reads: the events returned are as many as the
    reports read, each standing for the report in its place, exactly if no read
    has more reports than there are slots. -/
theorem frames_kept_iff {iSize : Nat} (hone : 1 ≤ iSize) (iFlagPressure : Int32)
    {calls : List (List CookEvent × Call)} (hsize : ∀ v ∈ calls, iSize ≤ v.1.length) :
    ∃ out, decode iSize iFlagPressure calls = some out ∧
      ((out.flatten.length = (stream calls).countP InputEvent.isReport ∧
          List.Forall₂ (fun items e => ∃ v ∈ calls, StandsFor v.1 items e) (reports calls)
            out.flatten) ↔
        ∀ v ∈ calls, v.2.events.countP InputEvent.isReport ≤ iSize) := by
  rcases decode_segments hone iFlagPressure hsize with ⟨out, hout, _⟩
  have hreports : (stream calls).countP InputEvent.isReport
      = (calls.map fun v => v.2.events.countP InputEvent.isReport).sum := List.countP_flatMap
  have hlength := decode_length hone hsize hout
  refine ⟨out, hout, ?_⟩
  constructor
  · rintro ⟨htotal, _⟩
    rw [hlength, hreports, sum_min_eq_iff] at htotal
    exact fun v hv => htotal _ (List.mem_map_of_mem hv)
  · intro hcount
    refine ⟨?_, decode_standsFor hone hsize hcount hout⟩
    rw [hlength, hreports, sum_min_eq_iff]
    intro c hc
    rcases List.mem_map.mp hc with ⟨v, hv, rfl⟩
    exact hcount v hv

theorem frames_kept_iff_moves :
    ∃ out, decode 1 0 (wholeFrame.map fun c => (zeroed 1, c)) = some out ∧
      ((out.flatten.length
            = (stream (wholeFrame.map fun c => (zeroed 1, c))).countP InputEvent.isReport ∧
          List.Forall₂ (fun items e => ∃ v ∈ wholeFrame.map fun c => (zeroed 1, c),
              StandsFor v.1 items e)
            (reports (wholeFrame.map fun c => (zeroed 1, c))) out.flatten) ↔
        ∀ v ∈ wholeFrame.map fun c => (zeroed 1, c), v.2.events.countP InputEvent.isReport ≤ 1) :=
  frames_kept_iff (Nat.le_refl 1) 0 fun v hv => by
    rcases List.mem_map.mp hv with ⟨c, _, rfl⟩
    exact Nat.le_of_eq List.length_replicate.symm

/-- A read of one report more than there are slots. -/
def crowded : Call :=
  { iFd := 0
    events := List.replicate 129 ⟨evSyn, synReport, 0⟩
    errno := 0
    clock := fun _ => ⟨0, 0⟩
    nonempty := by
      rw [List.length_replicate]
      decide
    fits := by
      rw [List.length_replicate]
      decide }

theorem crowded_reports : crowded.events.countP InputEvent.isReport = 129 := by
  unfold crowded
  rw [List.countP_replicate]
  rfl

/-- The last one is dropped. -/
theorem report_dropped : ¬ ∀ (calls : List (List CookEvent × Call)) (iSize : Nat)
    (iFlagPressure : Int32) (out : List (List CookEvent)), 1 ≤ iSize →
      (∀ v ∈ calls, iSize ≤ v.1.length) → decode iSize iFlagPressure calls = some out →
        out.flatten.length = (stream calls).countP InputEvent.isReport := by
  intro h
  have hsize : ∀ v ∈ [(zeroed 128, crowded)], 128 ≤ v.1.length := by
    intro v hv
    rw [List.mem_singleton.mp hv]
    exact Nat.le_of_eq List.length_replicate.symm
  rcases decode_segments (by decide) 0 hsize with ⟨out, hout, _⟩
  have htotal := h _ 128 0 out (by decide) hsize hout
  have hstream : stream [(zeroed 128, crowded)] = crowded.events := List.append_nil _
  rw [decode_length (by decide) hsize hout, hstream, crowded_reports, List.map_singleton,
    List.map_singleton, List.sum_singleton, crowded_reports] at htotal
  exact absurd htotal (by decide)

end Input

end ZeusOS
