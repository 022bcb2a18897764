import Mathlib.Data.List.Forall2
import Mathlib.Data.List.Induction
import ZeusOS.Foundation.Segments
import ZeusOS.Input.EventDevice

/-!
# Decoding

What the calls of `process` make of the streams of the input devices.

A frame is what a `SYN_REPORT` ends. Of each frame a call sees the events that
came in the same read as the report, and cooks them into the next slot; what
came in an earlier read was cooked into a slot that the next call does not go
on with. So a call is described by the segments of its read, with the counter
`iFlagPressure` as their tally, and a run of calls by `chunked`.

The counter matters less than it seems. It says two only at the second report
since the last touch event, and then the slot of that report has had no touch
event in this call: the pressure that is overwritten is the one the caller put
there. With the arrays zeroed, overwriting it with zero is nothing, and the
counter, the only thing the devices share, has no influence at all.

## Main definitions

* `cook`, `touch`: What an event does to the slot and to the counter.
* `Call`, `serve`: A call on a device, and a run of calls.
* `Field`, `CookEvent.get`, `InputEvent.writes`: The fields of an event.
* `Frame`, `Frame.carried`: What a call makes of a frame, field by field.
* `BetweenFrames`: A cut between the frames.

## Theorems

* `processLoop_segments`, `process_segments`: A call cooks its segments.
* `serve_segments`: So does a run of calls.
* `alike_of_closed`: Cuts between the frames decode alike.
* `decode_agrees_iff`: When two cuts of one stream do.
* `serve_unaffected`: Devices do not influence each other's events.
-/

namespace ZeusOS

namespace Input

open Foundation.Segments

/-- What an event does to the slot at hand. -/
def cook (iev : InputEvent) (cookEvent : CookEvent) : CookEvent :=
  if iev.type = evAbs then cookTouchEvent iev cookEvent
  else if iev.type = evKey then cookKeyEvent iev cookEvent
  else cookEvent

/-- What an event does to the counter. -/
def touch (iFlagPressure : Int32) (iev : InputEvent) : Int32 :=
  if iev.type = evAbs then 0
  else if iev.isReport then iFlagPressure + 1
  else iFlagPressure

/-- Reports are neither touch nor key events. -/
theorem isReport_type {iev : InputEvent} (h : iev.isReport = true) :
    iev.type ≠ evAbs ∧ iev.type ≠ evKey := by
  simp only [InputEvent.isReport, decide_eq_true_eq] at h
  rw [h.1]
  decide

/-- Writing the slot `cev` points at, in an array taken apart there. -/
theorem write_split (f : CookEvent → CookEvent) (done rest : List CookEvent) (slot : CookEvent)
    (iFlagPressure : Int32) :
    Decoder.write f ⟨done ++ slot :: rest, done.length, iFlagPressure⟩
      = some ⟨done ++ f slot :: rest, done.length, iFlagPressure⟩ := by
  -- The slot `cev` points at is the one behind the complete ones.
  have hmodify : (done ++ slot :: rest).modify done.length f = done ++ f slot :: rest := by
    induction done with
    | nil => rfl
    | cons e done ih => exact congrArg (e :: ·) ih
  rw [Decoder.write, if_pos (by simp), hmodify]

theorem handle_item {clock : Nat → Timeval} {iev : InputEvent} (h : iev.isReport = false)
    (done rest : List CookEvent) (slot : CookEvent) (iFlagPressure : Int32) :
    Decoder.handle clock iev ⟨done ++ slot :: rest, done.length, iFlagPressure⟩
      = some ⟨done ++ cook iev slot :: rest, done.length, touch iFlagPressure iev⟩ := by
  unfold Decoder.handle cook touch
  -- A touch event, a key event, or one that is passed over.
  by_cases habs : iev.type = evAbs
  · rw [if_pos habs, if_pos habs, if_pos habs, write_split]
    rfl
  · rw [if_neg habs, if_neg habs, if_neg habs, h, if_neg Bool.false_ne_true]
    by_cases hkey : iev.type = evKey
    · rw [if_pos hkey, if_pos hkey, write_split, if_neg Bool.false_ne_true]
    · rw [if_neg hkey, if_neg hkey, if_neg Bool.false_ne_true]

theorem handle_report {clock : Nat → Timeval} {iev : InputEvent} (h : iev.isReport = true)
    (done rest : List CookEvent) (slot : CookEvent) (iFlagPressure : Int32) :
    Decoder.handle clock iev ⟨done ++ slot :: rest, done.length, iFlagPressure⟩
      = some ⟨done ++ report (touch iFlagPressure iev) (clock done.length) slot :: rest,
          done.length + 1, touch iFlagPressure iev⟩ := by
  rcases isReport_type h with ⟨habs, hkey⟩
  unfold Decoder.handle touch
  rw [if_neg habs, if_neg hkey, if_pos h, if_neg habs, if_pos h]
  simp only [write_split, Option.map_some]

/-- A cooked event without its time. -/
def CookEvent.timeless (e : CookEvent) : CookEvent := { e with tTime := ⟨0, 0⟩ }

/-- The frames a read completes. -/
abbrev Frame := Segment InputEvent Int32

def frames (items : List InputEvent) (iFlagPressure : Int32) (events : List InputEvent) :
    List Frame := segments InputEvent.isReport touch items iFlagPressure events

/-- One frame for every report. -/
theorem frames_length (items : List InputEvent) (iFlagPressure : Int32) (events : List InputEvent) :
    (frames items iFlagPressure events).length = events.countP InputEvent.isReport :=
  segments_length items iFlagPressure events

/-- The counter has no say in where frames end. -/
theorem frames_items (iFlagPressure : Int32) (events : List InputEvent) :
    (frames [] iFlagPressure events).map Segment.items = (frames [] 0 events).map Segment.items :=
  segments_items [] iFlagPressure 0 events

/-- What a frame leaves in its slot, the time apart. -/
def Frame.cooked (F : Frame) (slot : CookEvent) : CookEvent :=
  (report F.tally ⟨0, 0⟩ (F.items.foldl (fun e iev => cook iev e) slot)).timeless

theorem report_timeless (iFlagPressure : Int32) (now now' : Timeval) (e : CookEvent) :
    (report iFlagPressure now e).timeless = (report iFlagPressure now' e).timeless := rfl

/-- The part of a read that the loop looks at. -/
def examined (iSize : Nat) (events : List InputEvent) : List InputEvent :=
  upTo InputEvent.isReport iSize events

/-- The loop from the middle of a read. The array is taken apart at `cev`,
    where `items` have been cooked into `slot` so far. -/
theorem processLoop_segments (clock : Nat → Timeval) {iSize : Nat} (events : List InputEvent)
    (done rest : List CookEvent) (slot : CookEvent) (items : List InputEvent)
    (iFlagPressure : Int32) (hdone : done.length < iSize)
    (hsize : iSize ≤ done.length + 1 + rest.length) :
    ∃ d, processLoop clock iSize events events.length
        ⟨done ++ items.foldl (fun e iev => cook iev e) slot :: rest, done.length, iFlagPressure⟩
          = some d ∧
      d.iFlagPressure = tallied touch iFlagPressure (examined (iSize - done.length) events) ∧
      d.iRet = done.length
        + (frames items iFlagPressure (examined (iSize - done.length) events)).length ∧
      (d.cookEvent.take d.iRet).map CookEvent.timeless = done.map CookEvent.timeless
        ++ List.zipWith Frame.cooked
          (frames items iFlagPressure (examined (iSize - done.length) events)) (slot :: rest) := by
  induction events generalizing done rest slot items iFlagPressure with
  | nil =>
      rw [examined, upTo_nil]
      refine ⟨_, rfl, rfl, rfl, ?_⟩
      rw [List.take_left]
      exact (List.append_nil _).symm
  | cons iev events ih =>
      -- There is room for a frame at least, so the event is looked at.
      obtain ⟨n, hn⟩ : ∃ n, iSize - done.length = n + 1 := ⟨iSize - done.length - 1, by omega⟩
      have hexamined : examined (iSize - done.length) (iev :: events)
          = iev :: examined (if iev.isReport then n else n + 1) events := by
        rw [hn]
        rfl
      rw [hexamined, List.length_cons, processLoop]
      cases hreport : iev.isReport with
      | false =>
          -- The event goes into the slot and the frame goes on.
          rw [handle_item hreport, Option.bind_some, if_neg (fun h => Bool.false_ne_true h.1),
            if_neg Bool.false_ne_true, frames, segments_item hreport, ← hn]
          have hfold : cook iev (items.foldl (fun e iev => cook iev e) slot)
              = (items ++ [iev]).foldl (fun e iev => cook iev e) slot := by
            rw [List.foldl_append]
            rfl
          rw [hfold]
          exact ih done rest slot (items ++ [iev]) _ hdone hsize
      | true =>
          rw [handle_report hreport, Option.bind_some, if_pos rfl, frames, segments_end hreport]
          by_cases hfull : done.length + 1 = iSize
          · -- The last slot is complete, so the rest of the read is dropped.
            have hzero : n = 0 := by omega
            rw [if_pos ⟨rfl, by exact_mod_cast hfull⟩, hzero, examined, upTo_zero]
            refine ⟨_, rfl, rfl, rfl, ?_⟩
            have htake : (done ++ report (touch iFlagPressure iev) (clock done.length)
                (items.foldl (fun e iev => cook iev e) slot) :: rest).take (done.length + 1)
                  = done ++ [report (touch iFlagPressure iev) (clock done.length)
                      (items.foldl (fun e iev => cook iev e) slot)] := by
              rw [List.take_length_add_append]
              rfl
            rw [htake, List.map_append]
            exact congrArg _ (congrArg (· :: []) (report_timeless _ _ _ _))
          · rw [if_neg (fun h => hfull (by exact_mod_cast h.2))]
            -- There is room for the next frame, which starts with an empty slot.
            rcases List.exists_cons_of_length_pos (show 0 < rest.length by omega) with
              ⟨slot', rest', rfl⟩
            have hlength : (done ++ [report (touch iFlagPressure iev) (clock done.length)
                (items.foldl (fun e iev => cook iev e) slot)]).length = done.length + 1 := by
              rw [List.length_append, List.length_singleton]
            have hdrop : iSize - (done.length + 1) = n := by omega
            rw [List.length_cons] at hsize
            rcases ih (done ++ [report (touch iFlagPressure iev) (clock done.length)
                (items.foldl (fun e iev => cook iev e) slot)]) rest' slot' []
                (touch iFlagPressure iev) (by omega) (by omega) with ⟨d, hloop, hflag, hcount, hslots⟩
            rw [hlength, hdrop] at hflag hcount hslots
            rw [hlength, List.append_assoc, List.singleton_append] at hloop
            refine ⟨d, hloop, hflag, ?_, ?_⟩
            · rw [hcount, List.length_cons, frames]
              omega
            · rw [hslots, List.map_append, List.append_assoc]
              rfl

/-- A read of whole events from a device, and what else the call depends on. -/
structure Call where
  iFd : Nat
  events : List InputEvent
  errno : Int32
  clock : Nat → Timeval
  nonempty : 1 ≤ events.length
  fits : events.length ≤ 256

/-- What `read` says of them. -/
def Call.result (c : Call) : ReadResult :=
  { readSize := Int32.ofNat (inputEventSize.toNat * c.events.length)
    errno := c.errno
    filled := c.events }

/-- The size of the read is no error, and counts its events. -/
theorem process_call (c : Call) (cookEvent : List CookEvent) (iSize : Int)
    (iFlagPressure : Int32) :
    process c.result c.clock cookEvent iSize iFlagPressure
      = (processLoop c.clock iSize c.events c.events.length ⟨cookEvent, 0, iFlagPressure⟩).map
        fun d => ⟨d.iRet, d.cookEvent, d.iFlagPressure⟩ := by
  have hfits := c.fits
  have hnonempty := c.nonempty
  -- Sixteen bytes an event, and at most 256 events: no conversion wraps.
  have hint : c.result.readSize.toInt = 16 * c.events.length :=
    Int32.toInt_ofNat_of_lt (show 16 * c.events.length < 2 ^ 31 by omega)
  have hnonneg : ¬ c.result.readSize < 0 := by
    rw [Int32.lt_iff_toInt_lt, hint, Int32.toInt_zero]
    omega
  have hnonzero : c.result.readSize ≠ 0 := by
    rw [ne_eq, ← Int32.toInt_inj, hint, Int32.toInt_zero]
    omega
  have hword : c.result.readSize.toUInt32 = UInt32.ofNat (16 * c.events.length) :=
    Int32.toUInt32_ofNat'
  have hnat : c.result.readSize.toUInt32.toNat = 16 * c.events.length := by
    rw [hword, UInt32.toNat_ofNat_of_lt' (show 16 * c.events.length < 4294967296 by omega)]
  have hwhole : c.result.readSize.toUInt32 % inputEventSize = 0 := by
    rw [← UInt32.toNat_inj, UInt32.toNat_mod, hnat]
    exact Nat.mul_mod_right 16 _
  have hcount : (c.result.readSize.toUInt32 / inputEventSize).toNat = c.events.length := by
    rw [UInt32.toNat_div, hnat]
    exact Nat.mul_div_cancel_left _ (by decide)
  rw [process, if_neg (not_or.mpr ⟨hnonzero, fun h => hnonneg h.1⟩),
    if_neg (fun h => hnonneg h.1), if_neg (fun h => h.2 hwhole), hcount]
  rfl

/-- A call cooks the frames of its read. -/
theorem process_segments (c : Call) {cookEvent : List CookEvent} {iSize : Nat}
    (hone : 1 ≤ iSize) (hsize : iSize ≤ cookEvent.length) (iFlagPressure : Int32) :
    ∃ p, process c.result c.clock cookEvent iSize iFlagPressure = some p ∧
      p.iFlagPressure = tallied touch iFlagPressure (examined iSize c.events) ∧
      p.iRet = (frames [] iFlagPressure (examined iSize c.events)).length ∧
      p.returned.map CookEvent.timeless = List.zipWith Frame.cooked
        (frames [] iFlagPressure (examined iSize c.events)) cookEvent := by
  rcases List.exists_cons_of_length_pos (Nat.lt_of_lt_of_le hone hsize) with ⟨slot, rest, rfl⟩
  rw [List.length_cons] at hsize
  rcases processLoop_segments c.clock c.events [] rest slot [] iFlagPressure hone
    (by rw [List.length_nil]; omega) with ⟨d, hloop, hflag, hcount, hslots⟩
  rw [List.length_nil, Nat.zero_add] at hcount
  rw [process_call]
  exact ⟨_, congrArg (Option.map _) hloop, hflag, congrArg _ hcount, hslots⟩

/-- Calls one after another, each on the same array contents: the events each
    returns, and the device it was for. -/
def serve (cookEvent : List CookEvent) (iSize : Int) :
    Int32 → List Call → Option (List (Nat × List CookEvent))
  | _, [] => some []
  | iFlagPressure, c :: calls =>
    (process c.result c.clock cookEvent iSize iFlagPressure).bind fun p =>
      (serve cookEvent iSize p.iFlagPressure calls).map ((c.iFd, p.returned) :: ·)

/-- The frames a run of calls completes, call by call. -/
def allFrames (iSize : Nat) (iFlagPressure : Int32) (calls : List Call) : List (List Frame) :=
  chunked InputEvent.isReport touch iFlagPressure ((calls.map Call.events).map (examined iSize))

theorem serve_segments {cookEvent : List CookEvent} {iSize : Nat} (hone : 1 ≤ iSize)
    (hsize : iSize ≤ cookEvent.length) (iFlagPressure : Int32) (calls : List Call) :
    ∃ out, serve cookEvent iSize iFlagPressure calls = some out ∧
      out.map (fun r => r.2.map CookEvent.timeless)
        = (allFrames iSize iFlagPressure calls).map
          fun fs => List.zipWith Frame.cooked fs cookEvent := by
  induction calls generalizing iFlagPressure with
  | nil => exact ⟨[], rfl, rfl⟩
  | cons c calls ih =>
      rcases process_segments c hone hsize iFlagPressure with ⟨p, hp, hflag, _, hslots⟩
      rcases ih p.iFlagPressure with ⟨out, hout, hrest⟩
      refine ⟨(c.iFd, p.returned) :: out, ?_, ?_⟩
      · rw [serve, hp, Option.bind_some, hout]
        rfl
      · rw [List.map_cons, hslots, hrest, hflag]
        rfl

/-- The fields that events are compared by. -/
inductive Field where
  | type | x | y | key | pressure | trackID | touchMajor
  deriving DecidableEq, Repr

def CookEvent.get (e : CookEvent) : Field → Int32
  | .type => e.iType
  | .x => e.iX
  | .y => e.iY
  | .key => e.iKey
  | .pressure => e.iPressure
  | .trackID => e.iTrackID
  | .touchMajor => e.iTouchMajor

/-- The value a raw event gives to a field. -/
def InputEvent.writes (iev : InputEvent) : Field → Option Int32
  | .type =>
    if iev.type = evAbs then some touchscreen
    else if iev.type = evKey then some (if iev.code = btnTouch then touchscreen else keyEvent)
    else none
  | .x => if iev.type = evAbs ∧ iev.code = absMtPositionX then some iev.value else none
  | .y => if iev.type = evAbs ∧ iev.code = absMtPositionY then some iev.value else none
  | .key => if iev.type = evKey then some iev.code.toUInt32.toInt32 else none
  | .pressure => if iev.type = evAbs ∧ iev.code = absMtPositionX then some 1 else none
  | .trackID => if iev.type = evAbs ∧ iev.code = absMtTrackingId then some iev.value else none
  | .touchMajor => if iev.type = evAbs ∧ iev.code = absMtTouchMajor then some iev.value else none

/-- The value the last of the events that give one gives to a field. -/
def lastWrite (f : Field) (items : List InputEvent) : Option Int32 :=
  (items.filterMap (·.writes f)).getLast?

theorem get_cook (f : Field) (iev : InputEvent) (e : CookEvent) :
    (cook iev e).get f = (iev.writes f).getD (e.get f) := by
  have hkeyAbs : evKey ≠ evAbs := by decide
  have hcodes : absMtPositionY ≠ absMtPositionX ∧ absMtTouchMajor ≠ absMtPositionX ∧
      absMtTouchMajor ≠ absMtPositionY ∧ absMtTrackingId ≠ absMtPositionX ∧
      absMtTrackingId ≠ absMtPositionY ∧ absMtTrackingId ≠ absMtTouchMajor := by decide
  unfold cook cookTouchEvent cookKeyEvent
  cases f <;> simp only [InputEvent.writes, CookEvent.get] <;> grind

theorem get_foldl_cook (f : Field) (items : List InputEvent) (e : CookEvent) :
    (items.foldl (fun e iev => cook iev e) e).get f = (lastWrite f items).getD (e.get f) := by
  -- The induction is on the events, last one first, since the last write counts.
  induction items using List.reverseRecOn with
  | nil => rfl
  | append_singleton items iev ih =>
      have hlast : List.filterMap (fun iev => iev.writes f) [iev] = (iev.writes f).toList := by
        cases hwrites : iev.writes f <;> simp [hwrites]
      rw [List.foldl_append, List.foldl_cons, List.foldl_nil, get_cook, ih, lastWrite, lastWrite,
        List.filterMap_append, hlast]
      cases iev.writes f with
      | none =>
          rw [Option.toList_none, List.append_nil]
          rfl
      | some w =>
          rw [Option.toList_some, List.getLast?_append]
          rfl

/-- What a frame carries in a field: the last value among the events read
    together with its report, or what the slot held before. The second report
    since the last touch event takes the pressure back. -/
def Frame.carried (F : Frame) (slot : CookEvent) (f : Field) : Int32 :=
  if f = .pressure ∧ F.tally = 2 then 0 else (lastWrite f F.items).getD (slot.get f)

theorem get_cooked (F : Frame) (slot : CookEvent) (f : Field) :
    (F.cooked slot).get f = F.carried slot f := by
  unfold Frame.carried Frame.cooked report
  rw [← get_foldl_cook]
  -- Only the pressure depends on the counter.
  by_cases htally : F.tally = 2
  · rw [if_pos htally]
    cases f <;> simp [CookEvent.get, CookEvent.timeless, htally]
  · rw [if_neg htally, if_neg (fun h => htally h.2)]
    cases f <;> rfl

/-- The frames of a cut, each with what its slot held before the call. -/
def views (cookEvent : List CookEvent) (iSize : Nat) (iFlagPressure : Int32)
    (cut : List Call) : List (Frame × CookEvent) :=
  (allFrames iSize iFlagPressure cut).flatMap fun fs => fs.zip cookEvent

/-- The two frames carry the same in every field. -/
def Alike (v w : Frame × CookEvent) : Prop := ∀ f, v.1.carried v.2 f = w.1.carried w.2 f

theorem forall₂_alike_iff {vs ws : List (Frame × CookEvent)} :
    List.Forall₂ Alike vs ws
      ↔ vs.map (fun v => v.1.carried v.2) = ws.map fun w => w.1.carried w.2 := by
  rw [← List.forall₂_eq_eq_eq, List.forall₂_map_left_iff, List.forall₂_map_right_iff]
  simp only [funext_iff]
  exact Iff.rfl

theorem get_timeless (e : CookEvent) : e.timeless.get = e.get := by
  funext f
  cases f <;> rfl

/-- What a run of calls returns, compared field by field. -/
theorem serve_carried {cookEvent : List CookEvent} {iSize : Nat} (hone : 1 ≤ iSize)
    (hsize : iSize ≤ cookEvent.length) (iFlagPressure : Int32) (cut : List Call) :
    ∃ out, serve cookEvent iSize iFlagPressure cut = some out ∧
      (out.flatMap Prod.snd).map CookEvent.get
        = (views cookEvent iSize iFlagPressure cut).map fun v => v.1.carried v.2 := by
  rcases serve_segments hone hsize iFlagPressure cut with ⟨out, hout, hslots⟩
  refine ⟨out, hout, ?_⟩
  -- The times play no part in the comparison.
  have hget : ∀ es : List CookEvent,
      (es.map CookEvent.timeless).map CookEvent.get = es.map CookEvent.get := by
    intro es
    rw [List.map_map]
    exact List.map_congr_left fun e _ => get_timeless e
  have hcarried : ∀ fs : List Frame, (List.zipWith Frame.cooked fs cookEvent).map CookEvent.get
      = (fs.zip cookEvent).map fun v => v.1.carried v.2 := by
    intro fs
    rw [← List.map_uncurry_zip_eq_zipWith, List.map_map]
    exact List.map_congr_left fun v _ => funext fun f => get_cooked v.1 v.2 f
  have hevents := congrArg (List.map (List.map CookEvent.get)) hslots
  rw [List.map_map, List.map_map] at hevents
  simp only [Function.comp_def, hget, hcarried] at hevents
  rw [List.map_flatMap, views, List.map_flatMap, List.flatMap_def, List.flatMap_def, hevents]

/-- Slots that hold the same fields make no difference. -/
theorem zip_carried {e : CookEvent} {cookEvent : List CookEvent}
    (hslots : ∀ e' ∈ cookEvent, e'.get = e.get) {fs : List Frame}
    (hlength : fs.length ≤ cookEvent.length) :
    (fs.zip cookEvent).map (fun v => v.1.carried v.2) = fs.map fun F => F.carried e := by
  induction fs generalizing cookEvent with
  | nil => rfl
  | cons F fs ih =>
      cases cookEvent with
      | nil => exact absurd hlength (Nat.not_succ_le_zero _)
      | cons e' cookEvent =>
          have hfirst : F.carried e' = F.carried e := by
            funext f
            rw [Frame.carried, Frame.carried, hslots e' List.mem_cons_self]
          rw [List.zip_cons_cons, List.map_cons, List.map_cons, hfirst,
            ih (fun e₂ h => hslots e₂ (List.mem_cons_of_mem _ h)) (Nat.le_of_succ_le_succ hlength)]

/-- A cut between the frames: every read but the last ends with a report, and no
    read has more reports than events are asked for. -/
structure BetweenFrames (iSize : Nat) (cut : List Call) : Prop where
  closed : ∀ es ∈ (cut.map Call.events).dropLast, Closed InputEvent.isReport es
  count : ∀ c ∈ cut, c.events.countP InputEvent.isReport ≤ iSize

/-- Cuts between the frames decode alike, if the slots do not tell them apart. -/
theorem alike_of_closed {cookEvent : List CookEvent} {iSize : Nat} (hone : 1 ≤ iSize)
    (hsize : iSize ≤ cookEvent.length) (iFlagPressure : Int32)
    (hslots : ∀ e ∈ cookEvent, ∀ e' ∈ cookEvent, e.get = e'.get) {cut₁ cut₂ : List Call}
    (hsame : cut₁.flatMap Call.events = cut₂.flatMap Call.events)
    (hcut₁ : BetweenFrames iSize cut₁) (hcut₂ : BetweenFrames iSize cut₂) :
    List.Forall₂ Alike (views cookEvent iSize iFlagPressure cut₁)
      (views cookEvent iSize iFlagPressure cut₂) := by
  -- With all cuts between frames, a cut shows the frames of the whole stream.
  have hviews : ∀ cut : List Call, BetweenFrames iSize cut → ∀ e ∈ cookEvent,
      (views cookEvent iSize iFlagPressure cut).map (fun v => v.1.carried v.2)
        = (frames [] iFlagPressure (cut.flatMap Call.events)).map fun F => F.carried e := by
    intro cut hcut e he
    have hcount' : ∀ es ∈ cut.map Call.events, es.countP InputEvent.isReport ≤ iSize := by
      intro es hes
      rcases List.mem_map.mp hes with ⟨c, hc, rfl⟩
      exact hcut.count c hc
    have hzip : ∀ fs ∈ allFrames iSize iFlagPressure cut,
        (fs.zip cookEvent).map (fun v => v.1.carried v.2) = fs.map fun F => F.carried e := by
      intro fs hfs
      exact zip_carried (fun e' he' => hslots e' he' e he)
        (Nat.le_trans (chunked_upTo_length_le hfs) hsize)
    have hwhole : (allFrames iSize iFlagPressure cut).flatten
        = frames [] iFlagPressure (cut.flatMap Call.events) := by
      rw [List.flatMap_def]
      exact chunked_upTo_eq_segments _ _ _ hcut.closed hcount'
    rw [views, List.map_flatMap, List.flatMap_def, List.map_congr_left hzip, ← List.map_flatten,
      hwhole]
  -- Any slot will do to compare by.
  obtain ⟨e, he⟩ := List.exists_mem_of_length_pos (Nat.lt_of_lt_of_le hone hsize)
  rw [forall₂_alike_iff, hviews cut₁ hcut₁ e he, hviews cut₂ hcut₂ e he, hsame]

/-- Two cuts of a stream decode alike exactly when no read boundary keeps an
    event that matters from its report: every frame carries the same in every
    field under both. So they do, from slots that hold the same fields, if all
    boundaries lie between the frames. -/
theorem decode_agrees_iff {cookEvent : List CookEvent} {iSize : Nat} (hone : 1 ≤ iSize)
    (hsize : iSize ≤ cookEvent.length) (iFlagPressure : Int32) (cut₁ cut₂ : List Call) :
    ∃ out₁ out₂, serve cookEvent iSize iFlagPressure cut₁ = some out₁ ∧
      serve cookEvent iSize iFlagPressure cut₂ = some out₂ ∧
      ((out₁.flatMap Prod.snd).map CookEvent.get = (out₂.flatMap Prod.snd).map CookEvent.get ↔
        List.Forall₂ Alike (views cookEvent iSize iFlagPressure cut₁)
          (views cookEvent iSize iFlagPressure cut₂)) ∧
      ((∀ e ∈ cookEvent, ∀ e' ∈ cookEvent, e.get = e'.get) →
        cut₁.flatMap Call.events = cut₂.flatMap Call.events →
        BetweenFrames iSize cut₁ → BetweenFrames iSize cut₂ →
          (out₁.flatMap Prod.snd).map CookEvent.get
            = (out₂.flatMap Prod.snd).map CookEvent.get) := by
  rcases serve_carried hone hsize iFlagPressure cut₁ with ⟨out₁, hout₁, hcarried₁⟩
  rcases serve_carried hone hsize iFlagPressure cut₂ with ⟨out₂, hout₂, hcarried₂⟩
  refine ⟨out₁, out₂, hout₁, hout₂, ?_⟩
  rw [hcarried₁, hcarried₂]
  refine ⟨forall₂_alike_iff.symm, fun hslots hsame hcut₁ hcut₂ => forall₂_alike_iff.mp ?_⟩
  exact alike_of_closed hone hsize iFlagPressure hslots hsame hcut₁ hcut₂

/-- An array as `memset` leaves it. -/
def zeroed (n : Nat) : List CookEvent := List.replicate n ⟨⟨0, 0⟩, 0, 0, 0, 0, 0, 0, 0, 0⟩

/-- A position and a report, read together. -/
def wholeFrame : List Call :=
  [⟨0, [⟨evAbs, absMtPositionX, 5⟩, ⟨evSyn, synReport, 0⟩], 0, fun _ => ⟨0, 0⟩, by decide, by decide⟩]

/-- The same two events, read one by one. -/
def cutFrame : List Call :=
  [⟨0, [⟨evAbs, absMtPositionX, 5⟩], 0, fun _ => ⟨0, 0⟩, by decide, by decide⟩,
    ⟨0, [⟨evSyn, synReport, 0⟩], 0, fun _ => ⟨0, 0⟩, by decide, by decide⟩]

/-- Two frames of a finger that moves, read together and one by one. -/
def moves (iX : Int32) : List InputEvent := [⟨evAbs, absMtPositionX, iX⟩, ⟨evSyn, synReport, 0⟩]

theorem decode_agrees_iff_moves :
    ∃ out₁ out₂,
      serve (zeroed 128) 128 0 [⟨0, moves 5 ++ moves 6, 0, fun _ => ⟨0, 0⟩, by decide, by decide⟩]
        = some out₁ ∧
      serve (zeroed 128) 128 0 [⟨0, moves 5, 0, fun _ => ⟨0, 0⟩, by decide, by decide⟩,
        ⟨0, moves 6, 0, fun _ => ⟨0, 0⟩, by decide, by decide⟩] = some out₂ ∧
      (out₁.flatMap Prod.snd).map CookEvent.get = (out₂.flatMap Prod.snd).map CookEvent.get := by
  have hlength : 128 ≤ (zeroed 128).length := Nat.le_of_eq List.length_replicate.symm
  rcases decode_agrees_iff (show 1 ≤ 128 by decide) hlength 0
    [⟨0, moves 5 ++ moves 6, 0, fun _ => ⟨0, 0⟩, by decide, by decide⟩]
    [⟨0, moves 5, 0, fun _ => ⟨0, 0⟩, by decide, by decide⟩,
      ⟨0, moves 6, 0, fun _ => ⟨0, 0⟩, by decide, by decide⟩] with
    ⟨out₁, out₂, hout₁, hout₂, _, hbetween⟩
  refine ⟨out₁, out₂, hout₁, hout₂, hbetween ?_ (by decide) ⟨?_, by decide⟩ ⟨?_, by decide⟩⟩
  · intro e he e' he'
    rw [List.eq_of_mem_replicate he, List.eq_of_mem_replicate he']
  · exact fun es hes => absurd hes List.not_mem_nil
  · intro es hes
    rw [List.mem_singleton.mp hes]
    intro iev hiev
    rw [← Option.some.inj hiev]
    rfl

theorem cutFrame_differs :
    wholeFrame.flatMap Call.events = cutFrame.flatMap Call.events ∧
      (serve (zeroed 128) 128 0 wholeFrame).map
        (fun out => (out.flatMap Prod.snd).map fun e => (e.iType, e.iX, e.iPressure))
          = some [(touchscreen, 5, 1)] ∧
      (serve (zeroed 128) 128 0 cutFrame).map
        (fun out => (out.flatMap Prod.snd).map fun e => (e.iType, e.iX, e.iPressure))
          = some [(0, 0, 0)] := by
  decide +kernel

/-- Touch events reset the counter, and only reports move it on. -/
theorem tallied_touch {items : List InputEvent} (hitems : ∀ iev ∈ items, iev.isReport = false)
    (iFlagPressure : Int32) (habs : iFlagPressure = 0 ∨ ∃ iev ∈ items, iev.type = evAbs) :
    tallied touch iFlagPressure items = 0 := by
  induction items generalizing iFlagPressure with
  | nil =>
      rcases habs with rfl | ⟨_, hmem, _⟩
      · rfl
      · exact absurd hmem List.not_mem_nil
  | cons iev items ih =>
      refine ih (fun iev' h => hitems iev' (List.mem_cons_of_mem _ h)) _ ?_
      -- A touch event clears the counter, and nothing among the items moves it on.
      by_cases htype : iev.type = evAbs
      · exact Or.inl (if_pos htype)
      · have hsame : touch iFlagPressure iev = iFlagPressure := by
          rw [touch, if_neg htype, hitems iev List.mem_cons_self, if_neg Bool.false_ne_true]
        rw [hsame]
        rcases habs with hzero | ⟨iev', hmem, htype'⟩
        · exact Or.inl hzero
        · rcases List.mem_cons.mp hmem with rfl | hmem
          · exact absurd htype' htype
          · exact Or.inr ⟨iev', hmem, htype'⟩

/-- A frame whose report takes the pressure back has no touch event. -/
theorem no_touch_of_released {iFlagPressure : Int32} {events : List InputEvent} {F : Frame}
    (hF : F ∈ frames [] iFlagPressure events) (htally : F.tally = 2) :
    ∀ iev ∈ F.items, iev.type ≠ evAbs := by
  intro iev hmem htype
  -- The report counted two, so its own frame had not cleared the counter.
  rcases segments_tally iFlagPressure rfl hF with ⟨b, x, hx, htally'⟩
  rw [tallied_touch (items_not_end (fun _ h => absurd h List.not_mem_nil) hF) b
    (Or.inr ⟨iev, hmem, htype⟩), touch, if_neg (isReport_type hx).1, if_pos hx, htally] at htally'
  exact absurd htally' (by decide)

/-- In a slot that starts with no pressure, taking it back changes nothing. -/
theorem cooked_eq {iFlagPressure : Int32} {events : List InputEvent} {F : Frame}
    (hF : F ∈ frames [] iFlagPressure events) {slot : CookEvent} (hslot : slot.iPressure = 0) :
    F.cooked slot = (F.items.foldl (fun e iev => cook iev e) slot).timeless := by
  unfold Frame.cooked report
  by_cases htally : F.tally = 2
  · have hnone : lastWrite .pressure F.items = none := by
      rw [lastWrite, List.getLast?_eq_none_iff, List.filterMap_eq_nil_iff]
      intro iev hmem
      exact if_neg fun h => no_touch_of_released hF htally iev hmem h.1
    have hpressure := get_foldl_cook .pressure F.items slot
    rw [hnone, Option.getD_none] at hpressure
    have hzero : (F.items.foldl (fun e iev => cook iev e) slot).iPressure = 0 :=
      hpressure.trans hslot
    rw [if_pos htally]
    simp only [CookEvent.timeless]
    rw [hzero]
  · rw [if_neg htally]
    rfl

/-- What a call on a zeroed array returns, whatever the counter says. -/
def cookedAlone (n iSize : Nat) (events : List InputEvent) : List CookEvent :=
  List.zipWith (fun items slot => (items.foldl (fun e iev => cook iev e) slot).timeless)
    ((frames [] 0 (examined iSize events)).map Segment.items) (zeroed n)

theorem zipWith_cooked (n iSize : Nat) (iFlagPressure : Int32) (events : List InputEvent) :
    List.zipWith Frame.cooked (frames [] iFlagPressure (examined iSize events)) (zeroed n)
      = cookedAlone n iSize events := by
  rw [cookedAlone, ← frames_items iFlagPressure, List.zipWith_map_left, ← List.map_uncurry_zip_eq_zipWith,
    ← List.map_uncurry_zip_eq_zipWith]
  refine List.map_congr_left fun v hv => cooked_eq (List.of_mem_zip hv).1 ?_
  rw [List.eq_of_mem_replicate (List.of_mem_zip hv).2]

theorem serve_zeroed {n iSize : Nat} (hone : 1 ≤ iSize) (hsize : iSize ≤ n)
    (iFlagPressure : Int32) (calls : List Call) :
    ∃ out, serve (zeroed n) iSize iFlagPressure calls = some out ∧
      out.map (fun r => (r.1, r.2.map CookEvent.timeless))
        = calls.map fun c => (c.iFd, cookedAlone n iSize c.events) := by
  induction calls generalizing iFlagPressure with
  | nil => exact ⟨[], rfl, rfl⟩
  | cons c calls ih =>
      have hlength : iSize ≤ (zeroed n).length := by
        rw [zeroed, List.length_replicate]
        exact hsize
      rcases process_segments c hone hlength iFlagPressure with ⟨p, hp, _, _, hslots⟩
      rcases ih p.iFlagPressure with ⟨out, hout, hrest⟩
      refine ⟨(c.iFd, p.returned) :: out, ?_, ?_⟩
      · rw [serve, hp, Option.bind_some, hout]
        rfl
      · rw [List.map_cons, List.map_cons, hrest, hslots, zipWith_cooked]

/-- On zeroed arrays the calls on a device return the same events, the times
    apart, with the calls on all other devices between them and without. -/
theorem serve_unaffected {n iSize : Nat} (hone : 1 ≤ iSize) (hsize : iSize ≤ n) (iFd : Nat)
    (iFlagPressure : Int32) (calls alone : List Call)
    (halone : (calls.filter fun c => c.iFd = iFd).map Call.events = alone.map Call.events) :
    ∃ out out', serve (zeroed n) iSize iFlagPressure calls = some out ∧
      serve (zeroed n) iSize iFlagPressure alone = some out' ∧
      (out.filter fun r => r.1 = iFd).map (fun r => r.2.map CookEvent.timeless)
        = out'.map fun r => r.2.map CookEvent.timeless := by
  rcases serve_zeroed hone hsize iFlagPressure calls with ⟨out, hout, hcalls⟩
  rcases serve_zeroed hone hsize iFlagPressure alone with ⟨out', hout', hcalls'⟩
  refine ⟨out, out', hout, hout', ?_⟩
  -- Both runs are compared with the calls of the device taken alone.
  have hleft := congrArg (fun rs => (rs.filter fun r => r.1 = iFd).map Prod.snd) hcalls
  have hright := congrArg (List.map Prod.snd) hcalls'
  simp only [List.filter_map, List.map_map, Function.comp_def] at hleft hright
  rw [hleft, hright]
  have hevents := congrArg (List.map (cookedAlone n iSize)) halone
  rw [List.map_map, List.map_map] at hevents
  exact hevents

/-- A finger goes down, a key of another device is pressed, the finger lifts. -/
def touchKeyRelease : List Call :=
  [⟨3, moves 5, 0, fun _ => ⟨0, 0⟩, by decide, by decide⟩,
    ⟨4, [⟨evKey, 30, 1⟩, ⟨evSyn, synReport, 0⟩], 0, fun _ => ⟨0, 0⟩, by decide, by decide⟩,
    ⟨3, [⟨evKey, btnTouch, 0⟩, ⟨evSyn, synReport, 0⟩], 0, fun _ => ⟨0, 0⟩, by decide, by decide⟩]

theorem serve_unaffected_touch :
    ∃ out out', serve (zeroed 128) 128 0 touchKeyRelease = some out ∧
      serve (zeroed 128) 128 0 (touchKeyRelease.filter fun c => c.iFd = 3) = some out' ∧
      (out.filter fun r => r.1 = 3).map (fun r => r.2.map CookEvent.timeless)
        = out'.map fun r => r.2.map CookEvent.timeless :=
  serve_unaffected (by decide) (Nat.le_refl 128) 3 0 touchKeyRelease _ rfl

end Input

end ZeusOS
