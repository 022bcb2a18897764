import Mathlib.Data.List.Infix
import ZeusOS.Input.Slots

/-!
# Releases

When the pressure of a touch is taken back.

The counter `iFlagPressure` is cleared by every touch event and moved on by
every report, so at a report it tells how many reports there have been since
the last frame with a touch event in it: one at the report of such a frame, two
at the report of the first frame without. That holds across the cuts of the
stream, inside frames too, because nothing but the events moves the counter.

So the pressure is taken back once for every stretch of frames without a touch
event, in the first of them, as long as no stretch is long enough for the
counter to come around.

## Main definitions

* `Frame.contact`, `contacts`: The frames with a touch event.
* `releases`: The first frame of each stretch without.
* `seen`: What a call has of each report: its events, and the slot it found.

## Theorems

* `frames_tally`: The counter at the reports of a stream.
* `counted_eq_two`: It is two at the releases.
* `released_once`: The pressure is taken back there and nowhere else.
-/

namespace ZeusOS

namespace Input

open Foundation.Segments

/-- Whether one of the frame's events is a touch event. -/
def Frame.contact (F : Frame) : Bool := F.items.any fun iev => iev.type = evAbs

/-- The frames of a stream, by whether they have a touch event. -/
def contacts (events : List InputEvent) : List Bool := (frames [] 0 events).map Frame.contact

/-- Where a frame with a touch event is followed by one without. -/
def releases (cs : List Bool) : List Bool :=
  List.zipWith (fun before now => before && !now) (false :: cs) cs

/-- What the counter says at each report. -/
def counted : Int32 → List Bool → List Int32
  | _, [] => []
  | iFlagPressure, contact :: cs =>
    (if contact then 1 else iFlagPressure + 1)
      :: counted (if contact then 1 else iFlagPressure + 1) cs

/-- The counter at the reports, from the middle of a frame: it was cleared if
    the frame has had a touch event, and is as the frame found it otherwise. -/
theorem frames_tally {items : List InputEvent} {b iFlagPressure : Int32}
    (hb : b = if items.any fun iev => iev.type = evAbs then 0 else iFlagPressure)
    (events : List InputEvent) :
    (frames items b events).map Segment.tally
      = counted iFlagPressure ((frames items b events).map Frame.contact) := by
  induction events generalizing items b iFlagPressure with
  | nil => rfl
  | cons iev events ih =>
      cases hreport : iev.isReport with
      | true =>
          -- The report closes the frame and the next one starts with the count it left.
          have hcount : (if Frame.contact ⟨items, touch b iev⟩ then 1 else iFlagPressure + 1)
              = touch b iev := by
            rw [touch, if_neg (isReport_type hreport).1, if_pos hreport, hb, Frame.contact]
            cases items.any fun iev => iev.type = evAbs with
            | true => rfl
            | false => rfl
          rw [frames, segments_end hreport, List.map_cons, List.map_cons, counted, hcount]
          exact congrArg (touch b iev :: ·) (ih rfl)
      | false =>
          rw [frames, segments_item hreport]
          refine ih ?_
          rw [List.any_append, List.any_cons, List.any_nil, Bool.or_false, touch, hreport, hb]
          by_cases habs : iev.type = evAbs
          · rw [if_pos habs, decide_eq_true habs, Bool.or_true, if_pos rfl]
          · rw [if_neg habs, if_neg Bool.false_ne_true, decide_eq_false habs, Bool.or_false]

/-- The counter is two at the first frame without a touch event and at no
    other. The induction is on the frames that are left, behind a stretch of `n`
    without. -/
theorem counted_eq_two {n : Nat} {cs : List Bool}
    (hidle : ∀ m, List.replicate m false <:+: List.replicate n false ++ cs → m < 2 ^ 30) :
    (counted (Int32.ofNat (n + 1)) cs).map (fun t => decide (t = 2))
      = List.zipWith (fun before now => before && !now) (decide (n = 0) :: cs) cs := by
  induction cs generalizing n with
  | nil => rfl
  | cons contact cs ih =>
      rw [counted, List.map_cons, List.zipWith_cons_cons]
      cases contact with
      | true =>
          -- The stretch is over.
          have hsuffix : cs <:+: List.replicate n false ++ true :: cs :=
            ((List.suffix_cons true cs).trans (List.suffix_append _ _)).isInfix
          have hrest : (counted 1 cs).map (fun t => decide (t = 2))
              = List.zipWith (fun before now => before && !now) (true :: cs) cs :=
            ih fun m hm => hidle m (hm.trans hsuffix)
          rw [if_pos rfl, Bool.not_true, Bool.and_false]
          exact congrArg₂ List.cons rfl hrest
      | false =>
          have hlt : n < 2 ^ 30 := hidle n (List.prefix_append _ _).isInfix
          have hnext : Int32.ofNat (n + 1) + 1 = Int32.ofNat (n + 1 + 1) := (Int32.ofNat_add _ _).symm
          have hlonger : List.replicate (n + 1) false ++ cs = List.replicate n false ++ false :: cs := by
            rw [List.replicate_succ', List.append_assoc, List.singleton_append]
          have hrest := ih fun m hm => hidle m (hlonger ▸ hm)
          rw [if_neg Bool.false_ne_true, hnext, hrest, Bool.not_false, Bool.and_true]
          refine congrArg₂ List.cons (decide_eq_decide.mpr ?_) ?_
          · -- No stretch is so long that the counter comes to two again.
            rw [← Int32.toInt_inj, Int32.toInt_ofNat_of_lt (by omega)]
            change ((n + 1 + 1 : Nat) : Int) = 2 ↔ n = 0
            omega
          · rw [decide_eq_false (Nat.succ_ne_zero n)]

/-- From the first frame on, if it has a touch event, whatever the counter was. -/
theorem counted_releases {cs : List Bool} (hfirst : ∀ contact ∈ cs.head?, contact = true)
    (hidle : ∀ m, List.replicate m false <:+: cs → m < 2 ^ 30) (iFlagPressure : Int32) :
    (counted iFlagPressure cs).map (fun t => decide (t = 2)) = releases cs := by
  cases cs with
  | nil => rfl
  | cons contact cs =>
      have hcontact : contact = true := hfirst contact rfl
      subst hcontact
      have hrest : (counted 1 cs).map (fun t => decide (t = 2))
          = List.zipWith (fun before now => before && !now) (true :: cs) cs :=
        counted_eq_two fun m hm => hidle m (hm.trans (List.suffix_cons true cs).isInfix)
      rw [counted, List.map_cons, if_pos rfl, releases, List.zipWith_cons_cons]
      exact congrArg₂ List.cons rfl hrest

/-- What the calls had of each report: the events read together with it, and
    what its slot held. -/
def seen (calls : List (List CookEvent × Call)) : List (List InputEvent × CookEvent) :=
  calls.flatMap fun v => ((frames [] 0 v.2.events).map Segment.items).zip v.1

/-- The pressure of the event for a report, by whether it is taken back. -/
def pressure (released : Bool) (v : List InputEvent × CookEvent) : Int32 :=
  if released then 0 else (lastWrite .pressure v.1).getD v.2.iPressure

theorem cooked_pressure (fs : List Frame) (slots : List CookEvent) :
    (List.zipWith Frame.cooked fs slots).map CookEvent.iPressure
      = List.zipWith pressure ((fs.map Segment.tally).map fun t => decide (t = 2))
          ((fs.map Segment.items).zip slots) := by
  induction fs generalizing slots with
  | nil => rfl
  | cons F fs ih =>
      rcases slots with _ | ⟨slot, slots⟩
      · rfl
      have hslot : (F.cooked slot).iPressure = pressure (decide (F.tally = 2)) (F.items, slot) := by
        have hget := get_cooked F slot .pressure
        rw [Frame.carried] at hget
        simp only [true_and] at hget
        unfold pressure
        simp only [decide_eq_true_eq]
        exact hget
      exact congrArg₂ List.cons hslot (ih slots)

/-- A run of calls with a slot to spare in each: the pressures it returns, by
    the counter at the reports. -/
theorem decode_pressure {iSize : Nat} {calls : List (List CookEvent × Call)}
    (hsize : ∀ v ∈ calls, iSize ≤ v.1.length)
    (hcount : ∀ v ∈ calls, v.2.events.countP InputEvent.isReport < iSize) (iFlagPressure : Int32) :
    ∃ out, decode iSize iFlagPressure calls = some out ∧
      out.flatten.length = (stream calls).countP InputEvent.isReport ∧
      out.flatten.map CookEvent.iPressure
        = List.zipWith pressure
            ((((chunked InputEvent.isReport touch iFlagPressure
              (calls.map fun v => v.2.events)).flatten.map Segment.tally).map
                fun t => decide (t = 2))) (seen calls) := by
  induction calls generalizing iFlagPressure with
  | nil => exact ⟨[], rfl, rfl, rfl⟩
  | cons v calls ih =>
      have hv := hsize v List.mem_cons_self
      have hvcount := hcount v List.mem_cons_self
      rcases process_segments v.2 (by omega) hv iFlagPressure with ⟨p, hp, hflag, hret, hslots⟩
      -- With a slot to spare the whole read is looked at.
      have hwhole : examined iSize v.2.events = v.2.events := upTo_of_count_lt hvcount
      rw [hwhole] at hflag hslots
      rcases ih (fun w hw => hsize w (List.mem_cons_of_mem _ hw))
        (fun w hw => hcount w (List.mem_cons_of_mem _ hw)) p.iFlagPressure
        with ⟨out, hout, hlength, hpressure⟩
      have hstream : stream (v :: calls) = v.2.events ++ stream calls := List.flatMap_cons
      have hseen : seen (v :: calls)
          = ((frames [] iFlagPressure v.2.events).map Segment.items).zip v.1 ++ seen calls := by
        rw [frames_items]
        exact List.flatMap_cons
      have hfits : (frames [] iFlagPressure v.2.events).length ≤ v.1.length := by
        rw [frames_length]
        omega
      have hreturned : p.returned.length = v.2.events.countP InputEvent.isReport := by
        have h := congrArg List.length hslots
        rw [List.length_map, List.length_zipWith, Nat.min_eq_left hfits,
          frames_length] at h
        exact h
      have hfirst : p.returned.map CookEvent.iPressure
          = List.zipWith pressure (((frames [] iFlagPressure v.2.events).map Segment.tally).map
              fun t => decide (t = 2))
            (((frames [] iFlagPressure v.2.events).map Segment.items).zip v.1) := by
        rw [← cooked_pressure, ← hslots, List.map_map]
        rfl
      refine ⟨p.returned :: out, ?_, ?_, ?_⟩
      · rw [decode, hp, Option.bind_some, hout]
        rfl
      · rw [List.flatten_cons, List.length_append, hreturned, hlength, hstream, List.countP_append]
      · rw [List.flatten_cons, List.map_append, hfirst, hpressure, hseen, List.map_cons, chunked,
          List.flatten_cons, List.map_append, List.map_append, ← hflag]
        refine (List.zipWith_append ?_).symm
        rw [List.length_map, List.length_map, List.length_zip, List.length_map,
          Nat.min_eq_left hfits]

/-- A stream that starts with a touch, cut anywhere into reads that leave a slot
    to spare: there is an event for every report, and the pressure is taken back
    in those for the first frames without a touch event and in no others, as
    long as no stretch of such frames has 2 ^ 30. -/
theorem released_once {iSize : Nat} {calls : List (List CookEvent × Call)}
    (hsize : ∀ v ∈ calls, iSize ≤ v.1.length)
    (hcount : ∀ v ∈ calls, v.2.events.countP InputEvent.isReport < iSize)
    (hfirst : ∀ contact ∈ (contacts (stream calls)).head?, contact = true)
    (hidle : ∀ n, List.replicate n false <:+: contacts (stream calls) → n < 2 ^ 30)
    (iFlagPressure : Int32) :
    ∃ out, decode iSize iFlagPressure calls = some out ∧
      out.flatten.length = (contacts (stream calls)).length ∧
      out.flatten.map CookEvent.iPressure
        = List.zipWith pressure (releases (contacts (stream calls))) (seen calls) := by
  rcases decode_pressure hsize hcount iFlagPressure with ⟨out, hout, hlength, hpressure⟩
  refine ⟨out, hout, ?_, ?_⟩
  · rw [hlength, contacts, List.length_map, frames_length]
  · -- The counter at the reports is that of the uncut stream.
    have hstream : (calls.map fun v => v.2.events).flatten = stream calls := rfl
    have hcontacts : (frames [] iFlagPressure (stream calls)).map Frame.contact
        = contacts (stream calls) := by
      have hmap := congrArg (List.map fun items => items.any fun iev => iev.type = evAbs)
        (frames_items iFlagPressure (stream calls))
      rw [List.map_map, List.map_map] at hmap
      exact hmap
    have htally : (frames [] iFlagPressure (stream calls)).map Segment.tally
        = counted iFlagPressure ((frames [] iFlagPressure (stream calls)).map Frame.contact) :=
      frames_tally rfl (stream calls)
    rw [hcontacts, frames] at htally
    rw [hpressure, chunked_tally, hstream, htally, counted_releases hfirst hidle]

/-- A finger goes down, the frame cut in two, and lifts. -/
def lift : List Call :=
  cutFrame ++
    [⟨0, [⟨evKey, btnTouch, 0⟩, ⟨evSyn, synReport, 0⟩], 0, fun _ => ⟨0, 0⟩,
      Nat.le_of_ble_eq_true rfl, Nat.le_of_ble_eq_true rfl⟩]

theorem released_once_lift :
    ∃ out, decode 3 7 (lift.map fun c => (zeroed 3, c)) = some out ∧
      out.flatten.length = (contacts (stream (lift.map fun c => (zeroed 3, c)))).length ∧
      out.flatten.map CookEvent.iPressure
        = List.zipWith pressure (releases (contacts (stream (lift.map fun c => (zeroed 3, c)))))
          (seen (lift.map fun c => (zeroed 3, c))) := by
  refine released_once ?_ ?_ ?_ ?_ 7
  · intro v hv
    rcases List.mem_map.mp hv with ⟨c, _, rfl⟩
    exact Nat.le_of_eq List.length_replicate.symm
  · decide
  · decide
  · intro n hn
    have hle := hn.length_le
    rw [List.length_replicate] at hle
    exact Nat.lt_of_le_of_lt hle (by decide)

end Input

end ZeusOS
