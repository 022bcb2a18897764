import ZeusOS.Input.Slots
import ZeusOS.InputManager.Client
import ZeusOS.InputManager.Pipeline

/-!
# From the Panel to the Client

All the way of a touch: from the raw events that a read of a device brings, into
a slot of the reader's array, through the queue and the worker to the listeners,
and from a socket into what a client prints.

The reader's thread has one array for all its reads and does not clear it. So a
frame that leaves out what has not changed since the last one shows what
happened to be in its slot, which is what another frame of another read has left
there. A frame that says all that is printed shows that and nothing else,
whatever the slot held; and such a frame has a position, so the counter that
takes a pressure back is not at two when it is reported. If every read brings
such frames, all of them ended and no more than there are slots, what the array
and the counter hold has no say in what the client prints. After an interrupted
read the call looks at events that were not read, and there is no step for it.

The client's reads bring what there is, as `Greedy` says, and a dispatch is one
step, with its writes complete.

## Main definitions

* `touched`, `touches`: What frames say of touches.
* `Circuit`, `Pulse`, `pass`: The reads of devices, the process and a client.
* `Legible`: What is asked of a read.

## Theorems

* `shown_carried`: What a slot shows of a frame.
* `process_legible`: One call.
* `pass_reflects`: What a step keeps.
* `touches_printed`: What is printed, in every run.
-/

namespace ZeusOS

namespace InputManager

open Foundation.Overlay Foundation.Runs Foundation.Segments Foundation.Fifo Foundation.Potential
open ZeusOS.Input (CookEvent Frame InputEvent Processed ReadOutcome ReadResult Timeval
  absMtPositionX absMtPositionY absMtTrackingId eagain eintr evAbs evKey evSyn examined frames
  frames_items frames_length inputEventSize keyEvent lastWrite lastWrite_isSome
  no_touch_of_released process process_carried process_error process_interrupted readOf
  readOf_inside synReport touchscreen whole_read)

/-- What the events of a frame say of a touch: the last position and the last
    track there are. -/
def touched (items : List InputEvent) : Option Shown :=
  if lastWrite .type items = some touchscreen then
    (lastWrite .x items).bind fun iX =>
      (lastWrite .y items).bind fun iY =>
        (lastWrite .trackID items).map fun iTrackID => { iX, iY, iTrackID, iPressure := 1 }
  else none

/-- The touches among raw events. -/
def touches (events : List InputEvent) : List Shown :=
  (frames [] 0 events).filterMap fun F => touched F.items

/-- A frame says of what type it is, and if it is a touch where. -/
def Complete (items : List InputEvent) : Prop :=
  (lastWrite .type items).isSome = true ∧
    (lastWrite .type items = some touchscreen → (touched items).isSome = true)

instance (items : List InputEvent) : Decidable (Complete items) :=
  inferInstanceAs (Decidable (_ ∧ _))

/-- A listener that is told of touches and of nothing else. -/
structure Touchy (desc : ListenerDesc) : Prop where
  touch : touchscreen.toUInt32 &&& desc.iType ≠ 0
  key : keyEvent.toUInt32 &&& desc.iType = 0

/-- What a client that is written to prints of an event. -/
def printedOf (desc : ListenerDesc) (ev : CookEvent) : Option Shown :=
  if wants desc ev = true then some (Shown.of ev) else none

theorem filter_printed (desc : ListenerDesc) (events : List CookEvent) :
    (events.filter (wants desc)).map Shown.of = events.filterMap (printedOf desc) := by
  induction events with
  | nil => rfl
  | cons ev events ih =>
      rw [List.filter_cons, List.filterMap_cons, printedOf]
      by_cases hwants : wants desc ev = true
      · rw [if_pos hwants, if_pos hwants, List.map_cons, ih]
      · rw [if_neg hwants, if_neg hwants, ih]

/-- Types are of two kinds. -/
theorem lastWrite_type {items : List InputEvent} {w : Int32} (h : lastWrite .type items = some w) :
    w = touchscreen ∨ w = keyEvent := by
  rcases List.mem_filterMap.mp (List.mem_of_getLast? h) with ⟨iev, _, hw⟩
  unfold InputEvent.writes at hw
  grind

/-- A position comes with a pressure. -/
theorem lastWrite_pressure {items : List InputEvent} (h : (lastWrite .x items).isSome = true) :
    lastWrite .pressure items = some 1 := by
  rcases lastWrite_isSome.mp h with ⟨iev, hmem, hx⟩
  have hsome : (lastWrite .pressure items).isSome = true := by
    refine lastWrite_isSome.mpr ⟨iev, hmem, ?_⟩
    simp only [InputEvent.writes] at hx ⊢
    split at hx
    · rw [if_pos ‹_›]
      rfl
    · cases hx
  rcases Option.isSome_iff_exists.mp hsome with ⟨w, hw⟩
  rcases List.mem_filterMap.mp (List.mem_of_getLast? hw) with ⟨iev', _, hw'⟩
  simp only [InputEvent.writes, Option.ite_none_right_eq_some, Option.some.injEq] at hw'
  rw [hw, ← hw'.2]

/-- A frame with a position is not reported with a counter of two. -/
theorem tally_ne_two {iFlagPressure : Int32} {events : List InputEvent} {F : Frame}
    (hF : F ∈ frames [] iFlagPressure events) (hx : (lastWrite .x F.items).isSome = true) :
    F.tally ≠ 2 := by
  intro htally
  rcases lastWrite_isSome.mp hx with ⟨iev, hmem, hwrites⟩
  simp only [InputEvent.writes] at hwrites
  split at hwrites
  · rename_i habs
    exact no_touch_of_released hF htally iev hmem habs.1
  · cases hwrites

/-- What is printed of a slot in which such a frame has been cooked is what the
    frame says. -/
theorem shown_carried {desc : ListenerDesc} (hdesc : Touchy desc) {iFlagPressure : Int32}
    {events : List InputEvent} {F : Frame} (hF : F ∈ frames [] iFlagPressure events)
    (hcomplete : Complete F.items) {slot ev : CookEvent} (hev : ev.get = F.carried slot) :
    printedOf desc ev = touched F.items := by
  rcases Option.isSome_iff_exists.mp hcomplete.1 with ⟨w, hw⟩
  have hcarried : ∀ f w, f ≠ .pressure → lastWrite f F.items = some w → ev.get f = w := by
    intro f w hf hw
    rw [hev, Frame.carried, if_neg fun h => hf h.1, hw, Option.getD_some]
  have htype : ev.iType = w := hcarried .type w (by decide) hw
  have hwants : wants desc ev = decide (w.toUInt32 &&& desc.iType ≠ 0) := by
    rw [wants, htype]
  rcases lastWrite_type hw with rfl | rfl
  · -- A touch has a position, so the pressure is not taken back.
    have htouched := hcomplete.2 hw
    simp only [touched, if_pos hw, Option.isSome_bind, Option.isSome_map,
      Option.any_eq_true] at htouched
    rcases htouched with ⟨iX, hX, iY, hY, hTrackID⟩
    rcases Option.isSome_iff_exists.mp hTrackID with ⟨iTrackID, hTrackID⟩
    have hsome : (lastWrite .x F.items).isSome = true := by
      rw [hX]
      rfl
    have hpressure : ev.iPressure = 1 := by
      have hget : ev.get .pressure = 1 := by
        rw [hev, Frame.carried, if_neg fun h => tally_ne_two hF hsome h.2,
          lastWrite_pressure hsome, Option.getD_some]
      exact hget
    rw [printedOf, hwants, if_pos (decide_eq_true hdesc.touch), touched, if_pos hw, hX,
      Option.bind_some, hY, Option.bind_some, hTrackID, Option.map_some, Shown.of, hpressure,
      show ev.iX = iX from hcarried .x iX (by decide) hX,
      show ev.iY = iY from hcarried .y iY (by decide) hY,
      show ev.iTrackID = iTrackID from hcarried .trackID iTrackID (by decide) hTrackID]
  · have hother : ¬ lastWrite .type F.items = some touchscreen := by
      rw [hw]
      decide
    have hkey : ¬ decide (keyEvent.toUInt32 &&& desc.iType ≠ 0) = true := by
      rw [hdesc.key]
      decide
    rw [printedOf, hwants, if_neg hkey, touched, if_neg hother]

/-- The slots of the array that the reader's thread has. -/
def iSize : Nat := 128

/-- What a read brings, if it brings whole events. -/
def brought (r : ReadResult) : List InputEvent :=
  if 0 < r.readSize.toInt ∧ r.readSize.toUInt32 % inputEventSize = 0 then r.filled else []

/-- A call, whatever `read` comes back with, if it comes back from the loop. -/
theorem process_brought {r : ReadResult} (hr : ReadOutcome r) {clock : Nat → Timeval}
    {cookEvent : List CookEvent} {iFlagPressure : Int32} (hlength : cookEvent.length = iSize)
    {p : Processed} (h : process r clock cookEvent iSize iFlagPressure = some p) :
    p.cookEvent.length = iSize ∧ p.iRet ≤ iSize ∧
      p.returned.map CookEvent.get
        = ((frames [] iFlagPressure (examined iSize (brought r))).zip cookEvent).map
          fun v => v.1.carried v.2 := by
  have hone : 1 ≤ iSize := by decide
  have hminus : (-1 : Int) ≤ iSize := by decide
  by_cases hneg : r.readSize = -1
  · have hnone : brought r = [] := if_neg fun h => by
      rw [hneg] at h
      exact absurd h.1 (by decide)
    have hfilled : r.filled = [] := by
      rw [← List.length_eq_zero_iff, hr.filled, hneg]
      rfl
    by_cases hintr : r.errno = eagain ∨ r.errno = eintr
    · rw [process_interrupted hneg hfilled hintr] at h
      cases h
    · rw [process_error hneg hintr, Option.some.injEq] at h
      rw [← h, hnone]
      exact ⟨hlength, hminus, rfl⟩
  by_cases hzero : r.readSize = 0
  · have hnone : brought r = [] := if_neg fun h => by
      rw [hzero] at h
      exact absurd h.1 (by decide)
    rw [process, if_pos (Or.inl hzero), Option.some.injEq] at h
    rw [← h, hnone]
    exact ⟨hlength, hminus, rfl⟩
  have hpos : 0 < r.readSize.toInt := by
    have herror := hr.error
    rw [← Int32.toInt_inj] at hneg hzero
    change r.readSize.toInt ≠ -1 at hneg
    change r.readSize.toInt ≠ 0 at hzero
    omega
  by_cases hwhole : r.readSize.toUInt32 % inputEventSize = 0
  · rcases whole_read hr hpos hwhole with ⟨hevents, hfits, heq⟩
    have hbrought : brought r = r.filled := if_pos ⟨hpos, hwhole⟩
    rw [heq] at h
    rcases readOf_inside clock r.errno hevents hfits hone (Nat.le_of_eq hlength.symm) iFlagPressure
      with ⟨q, hq, hkept, _, _, hle⟩
    rcases process_carried r.filled hfits r.errno clock hone (Nat.le_of_eq hlength.symm)
      iFlagPressure with ⟨q', hq', _, hcarried⟩
    rw [h, Option.some.injEq] at hq hq'
    rw [← hq] at hkept hle
    rw [← hq'] at hcarried
    rw [hbrought]
    exact ⟨hkept.trans hlength, hle, hcarried⟩
  · -- A size that is no number of whole events is turned down.
    have hnone : brought r = [] := if_neg fun h => hwhole h.2
    have hnonneg : ¬ r.readSize < 0 := by
      rw [Int32.lt_iff_toInt_lt, Int32.toInt_zero]
      omega
    rw [process, if_neg (not_or.mpr ⟨hzero, fun h => hnonneg h.1⟩), if_neg fun h => hnonneg h.1,
      if_pos ⟨hnonneg, hwhole⟩, Option.some.injEq] at h
    rw [← h, hnone]
    exact ⟨hlength, hminus, rfl⟩

/-- A read that brings whole frames, no more than there are slots, each of which
    says all that is printed. -/
structure Legible (r : ReadResult) : Prop where
  outcome : ReadOutcome r
  closed : Closed InputEvent.isReport (brought r)
  room : (brought r).countP InputEvent.isReport ≤ iSize
  complete : ∀ F ∈ frames [] 0 (brought r), Complete F.items

/-- What is printed of slots in which complete frames have been cooked. -/
theorem zip_printed {desc : ListenerDesc} (hdesc : Touchy desc) {iFlagPressure : Int32}
    {events : List InputEvent} {fs : List Frame}
    (hfs : ∀ F ∈ fs, F ∈ frames [] iFlagPressure events)
    (hcomplete : ∀ F ∈ fs, Complete F.items) {slots cooked : List CookEvent}
    (hlength : fs.length ≤ slots.length)
    (hcooked : cooked.map CookEvent.get = (fs.zip slots).map fun v => v.1.carried v.2) :
    cooked.filterMap (printedOf desc) = fs.filterMap fun F => touched F.items := by
  induction fs generalizing slots cooked with
  | nil =>
      rw [List.zip_nil_left, List.map_nil, List.map_eq_nil_iff] at hcooked
      rw [hcooked]
      rfl
  | cons F fs ih =>
      rcases slots with _ | ⟨slot, slots⟩
      · exact absurd hlength (Nat.not_succ_le_zero _)
      rw [List.zip_cons_cons, List.map_cons] at hcooked
      rcases List.map_eq_cons_iff.mp hcooked with ⟨ev, rest, rfl, hev, hrest⟩
      have hfirst := shown_carried hdesc (hfs F List.mem_cons_self)
        (hcomplete F List.mem_cons_self) hev
      have hothers := ih (fun G hG => hfs G (List.mem_cons_of_mem _ hG))
        (fun G hG => hcomplete G (List.mem_cons_of_mem _ hG)) (Nat.le_of_succ_le_succ hlength) hrest
      rw [List.filterMap_cons, List.filterMap_cons, hfirst, hothers]

/-- The counter has no say in what frames say of touches. -/
theorem touches_frames (iFlagPressure : Int32) (events : List InputEvent) :
    (frames [] iFlagPressure events).filterMap (fun F => touched F.items) = touches events := by
  have hitems : ∀ fs : List Frame,
      fs.filterMap (fun F => touched F.items) = (fs.map Segment.items).filterMap touched := by
    intro fs
    rw [List.filterMap_map]
    rfl
  rw [touches, hitems, hitems, frames_items iFlagPressure events]

/-- What a call on such a read returns shows the touches of the read, whatever
    there is in the array and the counter. -/
theorem process_legible {desc : ListenerDesc} (hdesc : Touchy desc) {r : ReadResult}
    (hr : Legible r) {clock : Nat → Timeval} {cookEvent : List CookEvent} {iFlagPressure : Int32}
    (hlength : cookEvent.length = iSize) {p : Processed}
    (h : process r clock cookEvent iSize iFlagPressure = some p) :
    p.cookEvent.length = iSize ∧ p.iRet ≤ iSize ∧
      p.returned.filterMap (printedOf desc) = touches (brought r) := by
  rcases process_brought hr.outcome hlength h with ⟨hkept, hle, hcarried⟩
  have hexamined : examined iSize (brought r) = brought r := upTo_eq_self hr.closed hr.room
  rw [hexamined] at hcarried
  refine ⟨hkept, hle, ?_⟩
  rw [← touches_frames iFlagPressure]
  have hcomplete : ∀ F ∈ frames [] iFlagPressure (brought r), Complete F.items := by
    intro F hF
    have hitems := List.mem_map_of_mem (f := Segment.items) hF
    rw [frames_items] at hitems
    rcases List.mem_map.mp hitems with ⟨G, hG, heq⟩
    rw [← heq]
    exact hr.complete G hG
  refine zip_printed hdesc (fun F hF => hF) hcomplete ?_ hcarried
  rw [frames_length, hlength]
  exact hr.room

/-- The touches of frames read one after the other. -/
theorem touches_append {events events' : List InputEvent}
    (hclosed : Closed InputEvent.isReport events) :
    touches (events ++ events') = touches events ++ touches events' := by
  by_cases hnone : events = []
  · rw [hnone]
    rfl
  · rw [← touches_frames (tallied ZeusOS.Input.touch 0 events) events', touches, touches, frames,
      segments_append [] 0 hnone hclosed, List.filterMap_append]
    rfl

/-- The process and a client, with what the reader's thread keeps from one read
    to the next. Besides, there is what the devices have brought. -/
structure Circuit where
  session : Session
  cookEvent : List CookEvent
  iFlagPressure : Int32
  events : List InputEvent

/-- The array is on the thread's stack, the counter is static. -/
def Circuit.start (cookEvent : List CookEvent) (tCookEvent : List UInt8) : Circuit :=
  { session := Session.start tCookEvent, cookEvent, iFlagPressure := 0, events := [] }

/-- What can happen next. -/
inductive Pulse where
  /-- `readOnce` gets to a device, whose `read` comes back with this. -/
  | process (r : ReadResult) (clock : Nat → Timeval)
  /-- `readOnce` gets to no device. -/
  | passes
  /-- Anything else. -/
  | turn (turn : Turn)

/-- A step, with one listener's client. -/
def pass (desc : ListenerDesc) (c : Circuit) : Pulse → Option Circuit
  | .process r clock =>
    (process r clock c.cookEvent iSize c.iFlagPressure).bind fun p =>
      (proceed desc c.session (.server (.readOnce p.cookEvent p.iRet))).map fun session =>
        { session, cookEvent := p.cookEvent, iFlagPressure := p.iFlagPressure,
          events := c.events ++ brought r }
  | .passes =>
    (proceed desc c.session (.server (.readOnce c.cookEvent 0))).map fun session =>
      { c with session }
  | .turn (.server (.readOnce _ _)) => none
  | .turn turn => (proceed desc c.session turn).map fun session => { c with session }

/-- What a move adds to what has been read. -/
def Move.brings : Move → List CookEvent
  | .readOnce cookEvent iRet => cookEvent.take iRet.toNat
  | .copy _ | .addTask _ | .executeThread | .dispatchEvent | .spurious | .serve _ => []

/-- What a turn adds. -/
def Turn.brings : Turn → List CookEvent
  | .server move => move.brings
  | .read _ => []

theorem act_brings {s s' : Server} {m : Move} (h : act s m = some s') :
    s'.read = s.read ++ m.brings := by
  cases m with
  | readOnce cookEvent iRet =>
      simp only [act, Option.ite_none_right_eq_some] at h
      rcases h with ⟨_, h⟩
      by_cases hnone : iRet ≤ 0
      · rw [if_pos hnone, Option.some.injEq] at h
        rw [← h, Move.brings, Int.toNat_of_nonpos hnone, List.take_zero, List.append_nil]
      · rw [if_neg hnone, Option.some.injEq] at h
        rw [← h]
        rfl
  | copy | addTask | executeThread | dispatchEvent | spurious | serve =>
      cases act_cases h with
      | _ => exact (List.append_nil _).symm

/-- A client does nothing to the process. -/
theorem proceed_server {desc : ListenerDesc} {s s' : Session} {iSize : Int}
    (h : proceed desc s (.read iSize) = some s') : s'.server = s.server := by
  by_cases herror : iSize < 0
  · rw [proceed, if_pos herror, Option.some.injEq] at h
    rw [← h]
  · simp only [proceed, if_neg herror, Option.ite_none_right_eq_some, Option.some.injEq] at h
    rw [← h.2]

theorem proceed_brings {desc : ListenerDesc} {s s' : Session} {turn : Turn}
    (h : proceed desc s turn = some s') : s'.server.read = s.server.read ++ turn.brings := by
  cases turn with
  | server move =>
      simp only [proceed, Option.map_eq_some_iff] at h
      rcases h with ⟨server, hact, rfl⟩
      exact act_brings hact
  | read iSize =>
      rw [proceed_server h]
      exact (List.append_nil _).symm

/-- What a step can have done. -/
inductive Passed (desc : ListenerDesc) (c : Circuit) : Pulse → Circuit → Prop
  | brings (r : ReadResult) (clock : Nat → Timeval) (p : Processed)
      (session : Session) (hp : process r clock c.cookEvent iSize c.iFlagPressure = some p)
      (hsession : proceed desc c.session (.server (.readOnce p.cookEvent p.iRet)) = some session) :
      Passed desc c (.process r clock)
        { session, cookEvent := p.cookEvent, iFlagPressure := p.iFlagPressure,
          events := c.events ++ brought r }
  | passes (session : Session)
      (hsession : proceed desc c.session (.server (.readOnce c.cookEvent 0)) = some session) :
      Passed desc c .passes { c with session }
  | turns (turn : Turn) (session : Session) (hother : turn.brings = [])
      (hfits : ∀ move, turn = .server move → Fits move)
      (hsession : proceed desc c.session turn = some session) :
      Passed desc c (.turn turn) { c with session }

theorem pass_cases {desc : ListenerDesc} {c c' : Circuit} {pulse : Pulse}
    (h : pass desc c pulse = some c') : Passed desc c pulse c' := by
  cases pulse with
  | process r clock =>
      simp only [pass, Option.bind_eq_some_iff, Option.map_eq_some_iff] at h
      rcases h with ⟨p, hp, session, hsession, rfl⟩
      exact .brings r clock p session hp hsession
  | passes =>
      simp only [pass, Option.map_eq_some_iff] at h
      rcases h with ⟨session, hsession, rfl⟩
      exact .passes session hsession
  | turn turn =>
      cases turn with
      | server move =>
          cases move with
          | readOnce cookEvent iRet => cases h
          | copy | addTask | executeThread | dispatchEvent | spurious | serve =>
              simp only [pass, Option.map_eq_some_iff] at h
              rcases h with ⟨session, hsession, rfl⟩
              refine .turns _ session rfl ?_ hsession
              intro move hmove
              cases hmove
              trivial
      | read iSize =>
          simp only [pass, Option.map_eq_some_iff] at h
          rcases h with ⟨session, hsession, rfl⟩
          refine .turns _ session rfl ?_ hsession
          intro move hmove
          cases hmove

variable {desc : ListenerDesc} {tCookEvent : List UInt8} {c c' : Circuit}

/-- What is asked of a step: reads of devices are legible, and those of the
    client bring what they can. -/
def Sound (c : Circuit) : Pulse → Prop
  | .process r _ => Legible r
  | .passes => True
  | .turn turn => Greedy c.session turn

/-- What has been read shows the touches that the devices have brought. -/
structure Reflects (desc : ListenerDesc) (tCookEvent : List UInt8) (c : Circuit) : Prop where
  follows : Follows desc tCookEvent c.session
  whole : Whole cookEventSize c.session.chunks
  flowing : Flowing c.session.server
  long : ¬ Short c.session.server
  length : c.cookEvent.length = iSize
  closed : Closed InputEvent.isReport c.events
  shows : c.session.server.read.filterMap (printedOf desc) = touches c.events

theorem reflects_start {cookEvent : List CookEvent} (hlength : cookEvent.length = iSize) :
    Reflects desc tCookEvent (Circuit.start cookEvent tCookEvent) := by
  refine ⟨follows_start, fun chunk hchunk => ?_, flowing_start, Nat.lt_irrefl 0, hlength,
    fun iev hiev => ?_, rfl⟩
  · exact absurd hchunk List.not_mem_nil
  · cases hiev

/-- What a turn keeps that brings no more than there are slots for. -/
theorem proceed_flows {s s' : Session} {turn : Turn} (hs : Flowing s.server ∧ ¬ Short s.server)
    (hfits : ∀ move, turn = .server move → Fits move) (h : proceed desc s turn = some s') :
    Flowing s'.server ∧ ¬ Short s'.server := by
  cases turn with
  | server move =>
      simp only [proceed, Option.map_eq_some_iff] at h
      rcases h with ⟨server, hact, rfl⟩
      exact ⟨act_flowing _ _ _ hs.1 hact, act_long (hfits move rfl) hs.2 hact⟩
  | read iSize =>
      rw [proceed_server h]
      exact hs

/-- A row of whole frames behind another. -/
theorem closed_append {events events' : List InputEvent}
    (hclosed : Closed InputEvent.isReport events) (hclosed' : Closed InputEvent.isReport events') :
    Closed InputEvent.isReport (events ++ events') := by
  intro iev hiev
  by_cases hnone : events' = []
  · rw [hnone, List.append_nil] at hiev
    exact hclosed iev hiev
  · rw [List.getLast?_append_of_ne_nil _ hnone] at hiev
    exact hclosed' iev hiev

theorem pass_reflects (hdesc : Touchy desc) (c : Circuit) (pulse : Pulse) (c' : Circuit)
    (hc : Reflects desc tCookEvent c) (hsound : Sound c pulse) (h : pass desc c pulse = some c') :
    Reflects desc tCookEvent c' := by
  cases pass_cases h with
  | brings r clock p session hp hsession =>
      have hlegible : Legible r := hsound
      have hgreedy : Greedy c.session (.server (.readOnce p.cookEvent p.iRet)) := trivial
      rcases process_legible hdesc hlegible hc.length hp with ⟨hlength, hle, hshown⟩
      have hfits : ∀ move, Turn.server (.readOnce p.cookEvent p.iRet) = .server move →
          Fits move := by
        intro move hmove
        rw [← Turn.server.inj hmove, Fits, hlength]
        exact hle
      rcases proceed_flows ⟨hc.flowing, hc.long⟩ hfits hsession with ⟨hflowing, hlong⟩
      refine ⟨proceed_follows _ _ _ hc.follows hsession,
        greedy_step hc.follows hc.whole hgreedy hsession, hflowing, hlong, hlength,
        closed_append hc.closed hlegible.closed, ?_⟩
      rw [proceed_brings hsession, List.filterMap_append, hc.shows, touches_append hc.closed]
      exact congrArg _ hshown
  | passes session hsession =>
      have hgreedy : Greedy c.session (.server (.readOnce c.cookEvent 0)) := trivial
      have hfits : ∀ move, Turn.server (.readOnce c.cookEvent 0) = .server move → Fits move := by
        intro move hmove
        rw [← Turn.server.inj hmove, Fits]
        exact Int.natCast_nonneg _
      rcases proceed_flows ⟨hc.flowing, hc.long⟩ hfits hsession with ⟨hflowing, hlong⟩
      refine ⟨proceed_follows _ _ _ hc.follows hsession,
        greedy_step hc.follows hc.whole hgreedy hsession, hflowing, hlong, hc.length, hc.closed, ?_⟩
      have hnothing : (Turn.server (.readOnce c.cookEvent 0)).brings = [] := rfl
      rw [proceed_brings hsession, hnothing, List.append_nil]
      exact hc.shows
  | turns turn session hother hfits hsession =>
      rcases proceed_flows ⟨hc.flowing, hc.long⟩ hfits hsession with ⟨hflowing, hlong⟩
      refine ⟨proceed_follows _ _ _ hc.follows hsession,
        greedy_step hc.follows hc.whole hsound hsession, hflowing, hlong, hc.length, hc.closed, ?_⟩
      rw [proceed_brings hsession, hother, List.append_nil]
      exact hc.shows

/-- What a listener that was always in the list is to get are the touches among
    what was dispatched. -/
theorem due_shown {dispatched : List (CookEvent × List ListenerDesc)}
    (hregistered : ∀ e ∈ dispatched, desc ∈ e.2) :
    (due desc dispatched).map Shown.of = (dispatched.map Prod.fst).filterMap (printedOf desc) := by
  rw [due_of_registered hregistered, filter_printed]

/-- What has been printed is in front of what there is to print. -/
theorem printed_begins (hc : Reflects desc tCookEvent c) (hroom : tCookEvent.length = cookEventSize)
    (hregistered : ∀ e ∈ c.session.server.dispatched, desc ∈ e.2) :
    c.session.printed <+: touches c.events := by
  have hs := hc.follows
  rcases printed_of_whole hs hroom hc.whole with ⟨_, _, hprinted, _⟩
  rcases hs.conveys.conserved with ⟨events, _, hconserved⟩
  have hdue := (prefix_of_conserved hconserved).filterMap (printedOf desc)
  rw [hc.shows, ← due_shown hregistered, ← hs.served.served desc] at hdue
  rw [hprinted]
  exact ((List.take_prefix _ _).map _).trans hdue

/-- With nothing on its way and nothing to read, everything has been printed. -/
theorem printed_all (hc : Reflects desc tCookEvent c) (hroom : tCookEvent.length = cookEventSize)
    (hregistered : ∀ e ∈ c.session.server.dispatched, desc ∈ e.2)
    (hidle : Idle c.session.server) (hempty : c.session.socket = []) :
    c.session.printed = touches c.events := by
  have hs := hc.follows
  rcases printed_of_whole hs hroom hc.whole with ⟨later, hrecords, hprinted, hsocket⟩
  have hlater : later = [] := by
    rcases later with _ | ⟨ev, later⟩
    · rfl
    · rw [hempty] at hsocket
      cases hsocket
  rw [hlater, List.append_nil] at hrecords
  rw [hprinted, ← hrecords, hs.served.served desc, due_shown hregistered,
    dispatched_of_idle hs.conveys hidle, hc.shows]

/-- The steps that the threads and the client take by themselves. -/
inductive Unforced : Pulse → Prop
  | own (m : Move) (hm : Own m) : Unforced (.turn (.server m))
  | reads : Unforced (.turn (.read cookEventSize))

/-- A step of the threads is one of the whole. -/
theorem pass_own {m : Move} (hm : Own m) {server : Server}
    (h : act c.session.server m = some server) :
    ∃ c', pass desc c (.turn (.server m)) = some c' ∧ c'.session.server = server ∧
      c'.events = c.events := by
  have hproceed : ∃ session, proceed desc c.session (.server m) = some session ∧
      session.server = server := by
    simp only [proceed, h, Option.map_some]
    exact ⟨_, rfl, rfl⟩
  rcases hproceed with ⟨session, hsession, rfl⟩
  refine ⟨{ c with session }, ?_, rfl, rfl⟩
  cases hm with
  | copy | addTask | executeThread | dispatchEvent =>
      simp only [pass, hsession, Option.map_some]

theorem run_own (hdesc : Touchy desc) (hc : Reflects desc tCookEvent c) (moves : List Move)
    (hown : ∀ m ∈ moves, Own m) {server : Server}
    (hrun : run act c.session.server moves = some server) :
    ∃ c', run (pass desc) c (moves.map fun m => .turn (.server m)) = some c' ∧
      c'.session.server = server ∧ c'.events = c.events ∧ Reflects desc tCookEvent c' := by
  induction moves generalizing c with
  | nil =>
      rw [run_nil, Option.some.injEq] at hrun
      exact ⟨c, rfl, hrun, rfl, hc⟩
  | cons m moves ih =>
      rw [run_cons, Option.bind_eq_some_iff] at hrun
      rcases hrun with ⟨s, hact, hrest⟩
      rcases pass_own (hown m List.mem_cons_self) hact with ⟨c₁, hpass, rfl, hevents⟩
      have hsound : Sound c (.turn (.server m)) := trivial
      rcases ih (pass_reflects hdesc _ _ _ hc hsound hpass)
        (fun m hm => hown m (List.mem_cons_of_mem _ hm)) hrest with
        ⟨c₂, hrun, hserver, hevents', hc₂⟩
      refine ⟨c₂, ?_, hserver, hevents'.trans hevents, hc₂⟩
      rw [List.map_cons, run_cons, hpass, Option.bind_some, hrun]

/-- The client reads what there is to read. -/
theorem run_reads (hdesc : Touchy desc) (hc : Reflects desc tCookEvent c) :
    ∃ n c', run (pass desc) c (List.replicate n (.turn (.read cookEventSize))) = some c' ∧
      c'.session.socket = [] ∧ c'.session.server = c.session.server ∧ c'.events = c.events ∧
        Reflects desc tCookEvent c' := by
  generalize hn : c.session.socket.length = n
  induction n using Nat.strongRecOn generalizing c with
  | _ n ih =>
      by_cases hempty : c.session.socket = []
      · exact ⟨0, c, rfl, hempty, rfl, rfl, hc⟩
      -- What has not been read are whole events, so there is one.
      have hlength : cookEventSize ≤ c.session.socket.length := by
        rcases records_of_whole (by decide) eventBytes_length hc.whole hc.follows.written with
          ⟨later, _, _, hsocket⟩
        rcases later with _ | ⟨ev, later⟩
        · exact absurd hsocket hempty
        · rw [hsocket, encoded_length eventBytes_length, List.length_cons, Nat.mul_succ]
          omega
      have hcan : ¬ (cookEventSize : Int) < 0 := by decide
      have hsound : Sound c (.turn (.read cookEventSize)) := by
        intro _
        rw [Nat.min_eq_left hlength]
        exact ⟨hempty, rfl⟩
      have hfits : (cookEventSize : Int) ≤ cookEventSize ∧
          (cookEventSize : Int) ≤ c.session.socket.length :=
        ⟨Int.le_refl _, Int.ofNat_le.mpr hlength⟩
      rcases hpass : pass desc c (.turn (.read cookEventSize)) with _ | c₁
      · simp only [pass, proceed, if_neg hcan, if_pos hfits, Option.map_some, reduceCtorEq] at hpass
      have hc₁ := pass_reflects hdesc _ _ _ hc hsound hpass
      have hfirst := hpass
      simp only [pass, proceed, if_neg hcan, if_pos hfits, Option.map_some, Option.some.injEq]
        at hpass
      have hshorter : c₁.session.socket.length < n := by
        rw [← hpass]
        simp only [List.length_drop, Int.toNat_natCast]
        have hpos : 0 < cookEventSize := by decide
        omega
      rcases ih _ hshorter hc₁ rfl with ⟨k, c₂, hrun, hsocket, hserver, hevents, hc₂⟩
      refine ⟨k + 1, c₂, ?_, hsocket, ?_, ?_, hc₂⟩
      · rw [List.replicate_succ, run_cons, hfirst, Option.bind_some, hrun]
      · rw [hserver, ← hpass]
      · rw [hevents, ← hpass]

/-- The listener has been in the list at every dispatch, and is. -/
def Enrolled (desc : ListenerDesc) (s : Server) : Prop :=
  (∀ e ∈ s.dispatched, desc ∈ e.2) ∧ desc ∈ s.listeners.manager.mListenerDescList

theorem act_enrolled {s s' : Server} {m : Move} (hm : Own m) (hs : Enrolled desc s)
    (h : act s m = some s') : Enrolled desc s' := by
  cases act_cases h with
  | idles | reads | wakes | serves => cases hm
  | copies | queues | executes => exact hs
  | dispatches cv ev d _ _ _ =>
      refine ⟨fun e he => ?_, hs.2⟩
      rcases List.mem_append.mp he with he | he
      · exact hs.1 e he
      · rw [List.mem_singleton.mp he]
        exact hs.2

/-- In every run of device reads, the threads of the input manager and a client
    of its that is told of touches, whatever the reader's array and the client's
    variable held at first: if no read of a device is interrupted and every one
    brings whole frames, no more than there are slots and each complete, if every
    read of the client that does not fail brings as much as there is and it asked
    for, and if what is written to its socket is taken at once, the client that
    was in the list at every dispatch has printed the first of the touches that
    the devices have brought, in their order and each once; with nothing on its
    way and nothing to read it has printed all of them; and as long as it is in
    the list the threads and the client get there by themselves. -/
theorem touches_printed (hdesc : Touchy desc) (hroom : tCookEvent.length = cookEventSize)
    {cookEvent : List CookEvent} (hlength : cookEvent.length = iSize) (pulses : List Pulse)
    (hsound : Along (pass desc) Sound (Circuit.start cookEvent tCookEvent) pulses)
    (hrun : run (pass desc) (Circuit.start cookEvent tCookEvent) pulses = some c)
    (hregistered : ∀ e ∈ c.session.server.dispatched, desc ∈ e.2) :
    c.session.printed <+: touches c.events ∧
      (Idle c.session.server → c.session.socket = [] → c.session.printed = touches c.events) ∧
      (desc ∈ c.session.server.listeners.manager.mListenerDescList →
        ∃ more t, run (pass desc) c more = some t ∧ (∀ pulse ∈ more, Unforced pulse) ∧
          t.events = c.events ∧ t.session.printed = touches c.events) := by
  have hc : Reflects desc tCookEvent c :=
    always_of_along (pass desc) (Reflects desc tCookEvent) Sound (pass_reflects hdesc) _ pulses
      (reflects_start hlength) hsound pulses [] c (List.append_nil _).symm hrun
  refine ⟨printed_begins hc hroom hregistered, printed_all hc hroom hregistered, fun hlisted => ?_⟩
  -- First the threads come to rest, and then the client reads what there is.
  rcases amortized_finishes flowing_amortized own_work (fun u hu hbusy => flowing_goes hu hbusy)
    hc.flowing with ⟨moves, server, hmoves, hrest, _, hown, _⟩
  rcases run_own hdesc hc moves hown hmoves with ⟨c₁, hrun₁, rfl, hevents₁, hc₁⟩
  have hidle : Idle c₁.session.server := hrest.resolve_right hc₁.long
  have henrolled : Enrolled desc c₁.session.server :=
    run_invariant_mem act (Enrolled desc) moves
      (fun _ m _ hm hu h => act_enrolled (hown m hm) hu h) _ _ ⟨hregistered, hlisted⟩ hmoves
  rcases run_reads hdesc hc₁ with ⟨n, t, hrun₂, hsocket, hserver, hevents₂, ht⟩
  refine ⟨(moves.map fun m => .turn (.server m))
      ++ List.replicate n (.turn (.read cookEventSize)), t, ?_, ?_, hevents₂.trans hevents₁, ?_⟩
  · rw [run_append, hrun₁, Option.bind_some, hrun₂]
  · intro pulse hpulse
    rcases List.mem_append.mp hpulse with hpulse | hpulse
    · rcases List.mem_map.mp hpulse with ⟨m, hm, rfl⟩
      exact .own m (hown m hm)
    · rw [List.eq_of_mem_replicate hpulse]
      exact .reads
  · rw [← hevents₁, ← hevents₂]
    refine printed_all ht hroom ?_ ?_ hsocket
    · rw [hserver]
      exact henrolled.1
    · rw [hserver]
      exact hidle

/-- A finger that moves, with a key in between, in one read. -/
def fingerAndKey : List InputEvent :=
  [⟨evAbs, absMtTrackingId, 2⟩, ⟨evAbs, absMtPositionX, 5⟩, ⟨evAbs, absMtPositionY, 6⟩,
    ⟨evSyn, synReport, 0⟩, ⟨evKey, 30, 1⟩, ⟨evSyn, synReport, 0⟩, ⟨evAbs, absMtTrackingId, 2⟩,
    ⟨evAbs, absMtPositionX, 7⟩, ⟨evAbs, absMtPositionY, 8⟩, ⟨evSyn, synReport, 0⟩]

theorem legible_fingerAndKey : Legible (readOf fingerAndKey 0) := by
  have hbrought : brought (readOf fingerAndKey 0) = fingerAndKey := by decide
  refine ⟨⟨by decide, by decide, by decide⟩, ?_, ?_, ?_⟩
  · rw [hbrought]
    intro iev hiev
    rw [← Option.some.inj hiev]
    rfl
  · rw [hbrought]
    decide
  · rw [hbrought]
    decide

/-- The array begins with other events, and the client's variable with other
    bytes. None of them is printed. -/
theorem touches_printed_sample :
    ∃ c, run (pass touchListener)
        (Circuit.start (List.replicate 128 (eventAt 1 9)) (List.replicate 40 255))
        [.turn (.server (.serve (additionOf 1 5 10))),
          .process (readOf fingerAndKey 0) fun _ => ⟨0, 0⟩] = some c ∧
      ∃ more t, run (pass touchListener) c more = some t ∧ (∀ pulse ∈ more, Unforced pulse) ∧
        t.session.printed = [⟨5, 6, 2, 1⟩, ⟨7, 8, 2, 1⟩] := by
  have hparts : (run (pass touchListener)
      (Circuit.start (List.replicate 128 (eventAt 1 9)) (List.replicate 40 255))
      [.turn (.server (.serve (additionOf 1 5 10))),
        .process (readOf fingerAndKey 0) fun _ => ⟨0, 0⟩]).map
      (fun c => (touches c.events, c.session.server.dispatched,
        c.session.server.listeners.manager.mListenerDescList))
      = some ([⟨5, 6, 2, 1⟩, ⟨7, 8, 2, 1⟩], [], [touchListener]) := by decide +kernel
  rcases Option.map_eq_some_iff.mp hparts with ⟨c, hrun, hparts⟩
  rcases Prod.mk.inj hparts with ⟨htouches, hparts⟩
  rcases Prod.mk.inj hparts with ⟨hdispatched, hlist⟩
  have hregistered : ∀ e ∈ c.session.server.dispatched, touchListener ∈ e.2 := by
    rw [hdispatched]
    exact fun e he => absurd he List.not_mem_nil
  have hlisted : touchListener ∈ c.session.server.listeners.manager.mListenerDescList := by
    rw [hlist]
    exact List.mem_singleton_self _
  rcases (touches_printed ⟨by decide, by decide⟩ List.length_replicate List.length_replicate _
    (fun before pulse after u heq _ => by
      have hmem : pulse ∈ before ++ pulse :: after := List.mem_append_right _ List.mem_cons_self
      rw [← heq, List.mem_cons, List.mem_singleton] at hmem
      rcases hmem with rfl | rfl
      · trivial
      · exact legible_fingerAndKey) hrun hregistered).2.2 hlisted with
    ⟨more, t, hmore, hunforced, _, hprinted⟩
  rw [htouches] at hprinted
  exact ⟨c, hrun, more, t, hmore, hunforced, hprinted⟩

end InputManager

end ZeusOS
