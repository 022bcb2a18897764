import ZeusOS.Input.Records

/-!
# One Batch of Directory Events

What should come of a batch is plain: for each record that has something to
report a slot of the caller's array, in order from the first slot on, and the
number of those slots. What a record has to report depends on that record alone.

The slot for the next report is found by adding up what the handlers return. A
handler that cannot open a device returns minus one, after it has written to its
slot. Then the sum is less than the number of reports by one, or by two if the
device is counted among them, and the next report goes to a slot before, over
the report of another record or to where there is no slot. So the batch comes
out as it should only if every new device can be opened. The size of the array
is not looked at either.

## Main definitions

* `Record.report`, `reports`: What there is to report.
* `Slots`: Reports in slots.
* `Reported`: What should come of a batch.
* `EndsBy`: Below every new directory there is an end.

## Theorems

* `recordLoop_sum`: What the loop returns.
* `recordLoop_slots`: What it does if no device is refused.
* `reported_iff`: When a batch comes out as it should.
-/

namespace ZeusOS

namespace Input

namespace InotifyDevice

/-- What a handler sets in a slot. -/
structure Report where
  iType : Int32
  tTime : Timeval
  filePath : UInt32
  deriving DecidableEq, Repr

def Report.onto (report : Report) (cev : CookEvent) : CookEvent :=
  { cev with
    iType := report.iType
    tTime := report.tTime
    filePath := report.filePath }

/-- Some reports, in slots of their own from slot `k` on, and the array as it
    was elsewhere. -/
structure Slots (k : Nat) (reports : List Report) (cev cev' : List CookEvent) : Prop where
  room : k + reports.length ≤ cev.length
  taken : ∀ j report, reports[j]? = some report → cev'[k + j]? = cev[k + j]?.map report.onto
  others : ∀ j, j < k ∨ k + reports.length ≤ j → cev'[j]? = cev[j]?

theorem slots_nil {k : Nat} {cev : List CookEvent} (h : k ≤ cev.length) : Slots k [] cev cev :=
  { room := h
    taken := fun j report hj => by cases hj
    others := fun _ _ => rfl }

theorem slots_cons {k : Nat} {report : Report} {reports : List Report} {cev cev' : List CookEvent}
    (h : Slots (k + 1) reports (cev.modify k report.onto) cev') :
    Slots k (report :: reports) cev cev' := by
  have hroom := h.room
  rw [List.length_modify] at hroom
  refine { room := ?_, taken := fun j report' hj => ?_, others := fun j hj => ?_ }
  · rw [List.length_cons]
    omega
  · cases j with
    | zero =>
        cases hj
        rw [Nat.add_zero, h.others k (Or.inl (Nat.lt_succ_self k)), List.getElem?_modify_eq]
        rfl
    | succ j =>
        have htaken := h.taken j report' hj
        rw [List.getElem?_modify_ne _ _ (show k ≠ k + 1 + j by omega)] at htaken
        rw [show k + (j + 1) = k + 1 + j by omega, htaken]
  · rw [List.length_cons] at hj
    rw [h.others j (by omega), List.getElem?_modify_ne _ _ (by omega)]

/-- What a handler has left in slot `k`, if anything, and what comes behind. -/
theorem slots_report {k : Nat} {report : Option Report} {reports : List Report}
    {cev cev' : List CookEvent}
    (h : Slots (k + report.toList.length) reports
      (report.elim cev fun report => cev.modify k report.onto) cev') :
    Slots k (report.toList ++ reports) cev cev' := by
  cases report with
  | none => exact h
  | some report => exact slots_cons h

variable {κ : Type}

/-- What a record has to report, by the list before the batch. A device that is
    refused may be taken to be reported or not. -/
def Record.report (counted : Bool) (m : Moment κ) (w : Watcher κ) (r : Record) : Option Report :=
  if r.refused m (r.path w) && !counted then none
  else (r.eventType m (r.path w)).map fun iType => { iType, tTime := m.now, filePath := m.strTmp }

/-- What a batch has to report. -/
def reports (counted : Bool) (w : Watcher κ) : (Nat → Moment κ) → List Record → List Report
  | _, [] => []
  | moments, r :: rs =>
    (r.report counted (moments 0) w).toList ++ reports counted w (fun i => moments (i + 1)) rs

/-- How many devices of a batch are refused. -/
def refusals (w : Watcher κ) : (Nat → Moment κ) → List Record → Nat
  | _, [] => 0
  | moments, r :: rs =>
    (if r.refused (moments 0) (r.path w) then 1 else 0) + refusals w (fun i => moments (i + 1)) rs

/-- Some fuel is enough for every new directory of a batch. -/
def EndsBy (fuel : Nat) : (Nat → Moment κ) → List Record → Watcher κ → Prop
  | _, [], _ => True
  | moments, r :: rs, w =>
    ∃ w', r.watcherAfter (moments 0) (r.path w) fuel w = some w' ∧
      EndsBy fuel (fun i => moments (i + 1)) rs w'

/-- What should come of a batch: every record with a name is handled, once and
    in order, the result is how many reports there are, and the reports are in
    the slots from the first one on. -/
structure Reported (counted : Bool) (moments : Nat → Moment κ) (records : List Record)
    (s : Notified κ) (p : Int × Notified κ) : Prop where
  handled : p.2.handled = s.handled ++ records.flatMap Record.handlings
  result : p.1 = (reports counted s.watcher moments records).length
  slots : Slots 0 (reports counted s.watcher moments records) s.cookEvent p.2.cookEvent

/-- What is refused is a device, and so it would be reported. -/
theorem eventType_of_refused {m : Moment κ} {strTmp : Path} {r : Record}
    (h : r.refused m strTmp = true) : ∃ iType, r.eventType m strTmp = some iType := by
  unfold Record.refused Record.isDevice at h
  simp only [Bool.and_eq_true] at h
  rcases h with ⟨⟨⟨hcreate, hchr⟩, _⟩, _⟩
  have hname : r.name ≠ [] := (of_decide_eq_true hcreate).1
  rw [Record.eventType, if_neg hname, if_pos hcreate]
  unfold createType
  split
  · exact ⟨_, rfl⟩
  · split
    · exact ⟨_, rfl⟩
    · exact ⟨_, rfl⟩

/-- A handler's return is what it reports, less one for a device that is
    refused. -/
theorem result_eq (m : Moment κ) (w : Watcher κ) (r : Record) :
    r.result m (r.path w)
      = ((r.report false m w).toList.length : Int) - if r.refused m (r.path w) then 1 else 0 := by
  unfold Record.result Record.report
  cases hrefused : r.refused m (r.path w) with
  | true =>
      rcases eventType_of_refused hrefused with ⟨iType, htype⟩
      rw [htype]
      rfl
  | false =>
      cases r.eventType m (r.path w) with
      | none => rfl
      | some iType => rfl

/-- Refused devices counted, there are as many reports more. -/
theorem length_reports (w : Watcher κ) (moments : Nat → Moment κ) (records : List Record) :
    (reports true w moments records).length
      = (reports false w moments records).length + refusals w moments records := by
  induction records generalizing moments with
  | nil => rfl
  | cons r rs ih =>
      have hr : (r.report true (moments 0) w).toList.length = (r.report false (moments 0) w).toList.length
          + if r.refused (moments 0) (r.path w) then 1 else 0 := by
        unfold Record.report
        cases hrefused : r.refused (moments 0) (r.path w) with
        | true =>
            rcases eventType_of_refused hrefused with ⟨iType, htype⟩
            rw [htype]
            rfl
        | false => rfl
      rw [reports, reports, refusals, List.length_append, List.length_append, ih, hr]
      omega

theorem refusals_eq_zero_iff (w : Watcher κ) (moments : Nat → Moment κ) (records : List Record) :
    refusals w moments records = 0 ↔
      ∀ (i : Nat) (r : Record), records[i]? = some r → r.refused (moments i) (r.path w) = false := by
  induction records generalizing moments with
  | nil => exact iff_of_true rfl fun i r hi => by cases hi
  | cons r rs ih =>
      rw [refusals, Nat.add_eq_zero_iff, ih]
      constructor
      · rintro ⟨hfirst, hrest⟩ i r' hi
        cases i with
        | zero =>
            cases hi
            by_contra hrefused
            rw [if_pos (Bool.not_eq_false _ |>.mp hrefused)] at hfirst
            omega
        | succ i => exact hrest i r' hi
      · intro h
        refine ⟨if_neg ?_, fun i r' hi => h (i + 1) r' hi⟩
        rw [h 0 r rfl]
        exact Bool.false_ne_true

/-- A batch has the same to report when more directories are watched. -/
theorem reports_of_extends {w w' : Watcher κ}
    (h : w.directoryPathDescList <+: w'.directoryPathDescList) {records : List Record}
    (hfound : ∀ r ∈ records, r.Found w) (counted : Bool) (moments : Nat → Moment κ) :
    reports counted w' moments records = reports counted w moments records ∧
      refusals w' moments records = refusals w moments records := by
  induction records generalizing moments with
  | nil => exact ⟨rfl, rfl⟩
  | cons r rs ih =>
      rcases ih (fun r' hr' => hfound r' (List.mem_cons_of_mem _ hr')) fun i => moments (i + 1)
        with ⟨hreports, hrefusals⟩
      unfold reports refusals Record.report
      rw [path_of_extends h (hfound r List.mem_cons_self), hreports, hrefusals]
      exact ⟨rfl, rfl⟩

/-- What the loop returns, if it does: the number of reports, less one for every
    device that is refused. -/
theorem recordLoop_sum {fuel : Nat} {moments : Nat → Moment κ} {records : List Record} {iRet : Int}
    {s : Notified κ} {p : Int × Notified κ} (hfound : ∀ r ∈ records, r.Found s.watcher)
    (h : recordLoop fuel moments records iRet s = .ok p) :
    p.1 = iRet + (reports false s.watcher moments records).length - refusals s.watcher moments records ∧
      EndsBy fuel moments records s.watcher := by
  induction records generalizing moments iRet s with
  | nil =>
      cases h
      refine ⟨?_, trivial⟩
      rw [reports, refusals, List.length_nil]
      omega
  | cons r rs ih =>
      rcases recordLoop_cons h with ⟨n, s', hr, hrest⟩
      rcases handleRecord_ok hr with ⟨_, hn, hafter⟩
      have hext := watcherAfter_extends hafter
      have hrs : ∀ r' ∈ rs, r'.Found s.watcher := fun r' hr' => hfound r' (List.mem_cons_of_mem _ hr')
      rcases ih (fun r' hr' => found_of_extends hext (hrs r' hr')) hrest with ⟨hsum, hends⟩
      rcases reports_of_extends hext hrs false fun i => moments (i + 1) with ⟨hreports, hrefusals⟩
      refine ⟨?_, s'.watcher, hafter, hends⟩
      rw [hsum, hreports, hrefusals, hn, result_eq, reports, refusals, List.length_append]
      push_cast
      omega

/-- A record whose device, if it is one, is not refused, with room for its
    report. -/
theorem handleRecord_fine {m : Moment κ} {fuel : Nat} {r : Record} {s : Notified κ} {w' : Watcher κ}
    (hfound : r.Found s.watcher) (hrefused : r.refused m (r.path s.watcher) = false)
    (hafter : r.watcherAfter m (r.path s.watcher) fuel s.watcher = some w') (counted : Bool) {k : Nat}
    (hroom : k + (r.report counted m s.watcher).toList.length ≤ s.cookEvent.length) :
    ∃ s', handleRecord m fuel r k s = .ok ((r.report counted m s.watcher).toList.length, s') ∧
      s'.watcher = w' ∧ s'.handled = s.handled ++ r.handlings ∧
      s'.cookEvent = ((r.report counted m s.watcher).elim s.cookEvent fun report =>
        s.cookEvent.modify k report.onto) := by
  have hreport : r.report counted m s.watcher = (r.eventType m (r.path s.watcher)).map fun iType =>
      { iType, tTime := m.now, filePath := m.strTmp } := by
    rw [Record.report, hrefused]
    rfl
  rw [hreport] at hroom ⊢
  rw [handleRecord_eq m fuel k hfound]
  cases htype : r.eventType m (r.path s.watcher) with
  | none =>
      rw [watcherAfter_of_none htype, Option.some.injEq] at hafter
      exact ⟨_, rfl, hafter, rfl, rfl⟩
  | some iType =>
      rw [htype, Option.map_some, Option.toList_some, List.length_singleton] at hroom
      have hslot : (0 : Int) ≤ (k : Int) ∧ (k : Int) < s.cookEvent.length := by omega
      simp only [if_pos hslot, hafter, hrefused, Bool.false_eq_true, if_false]
      exact ⟨_, rfl, rfl, rfl, rfl⟩

/-- If no device is refused and every walk ends, a batch for which there is room
    comes out as it should. -/
theorem recordLoop_slots {fuel : Nat} {moments : Nat → Moment κ} {records : List Record}
    (counted : Bool) {k : Nat} {s : Notified κ} (hfound : ∀ r ∈ records, r.Found s.watcher)
    (hrefused : refusals s.watcher moments records = 0) (hends : EndsBy fuel moments records s.watcher)
    (hroom : k + (reports counted s.watcher moments records).length ≤ s.cookEvent.length) :
    ∃ s', recordLoop fuel moments records k s
        = .ok ((k : Int) + (reports counted s.watcher moments records).length, s') ∧
      s'.handled = s.handled ++ records.flatMap Record.handlings ∧
      Slots k (reports counted s.watcher moments records) s.cookEvent s'.cookEvent := by
  induction records generalizing moments k s with
  | nil =>
      refine ⟨s, ?_, (List.append_nil _).symm, slots_nil (by omega)⟩
      rw [reports, List.length_nil, Int.natCast_zero, Int.add_zero]
      rfl
  | cons r rs ih =>
      have hfirst := hfound r List.mem_cons_self
      have hrs : ∀ r' ∈ rs, r'.Found s.watcher := fun r' hr' => hfound r' (List.mem_cons_of_mem _ hr')
      rcases hends with ⟨w', hafter, hends⟩
      have hext := watcherAfter_extends hafter
      rw [refusals, Nat.add_eq_zero_iff] at hrefused
      have hnot : r.refused (moments 0) (r.path s.watcher) = false := by
        by_contra hyes
        rw [if_pos (Bool.not_eq_false _ |>.mp hyes)] at hrefused
        omega
      rw [reports, List.length_append] at hroom
      rcases handleRecord_fine hfirst hnot hafter counted (k := k) (by omega)
        with ⟨s', hhandle, hwatcher, hhandled, hcook⟩
      rcases reports_of_extends hext hrs counted fun i => moments (i + 1) with ⟨hreports, hrefusals⟩
      subst hwatcher
      have hlength : s'.cookEvent.length = s.cookEvent.length := by
        rw [hcook]
        cases r.report counted (moments 0) s.watcher with
        | none => rfl
        | some report => exact List.length_modify _ _ _
      rcases ih (k := k + (r.report counted (moments 0) s.watcher).toList.length)
          (fun r' hr' => found_of_extends hext (hrs r' hr')) (hrefusals.trans hrefused.2) hends
          (by rw [hreports, hlength]; omega) with ⟨s'', hloop, hhandled', hslots⟩
      rw [hreports] at hloop hslots
      refine ⟨s'', ?_, ?_, ?_⟩
      · rw [recordLoop, hhandle, reports, List.length_append, Nat.cast_add, ← Int.add_assoc, ← Nat.cast_add]
        exact hloop
      · rw [hhandled', hhandled, List.flatMap_cons, List.append_assoc]
      · rw [hcook] at hslots
        exact slots_report hslots

/-- A read that gives nothing is taken for an error, unless it was interrupted. -/
theorem reported_nothing (counted : Bool) (errno : Int32) (moments : Nat → Moment κ) (s : Notified κ) :
    (∃ fuel p, process fuel (readRecords [] errno) moments s = .ok p ∧
      Reported counted moments [] s p) ↔ errno = eintr := by
  constructor
  · rintro ⟨fuel, p, hprocess, hreported⟩
    by_contra herrno
    have hfailed : process fuel (readRecords [] errno) moments s = .ok (-1, s) := if_neg herrno
    rw [hfailed, Except.ok.injEq] at hprocess
    have hresult := hreported.result
    rw [← hprocess] at hresult
    cases hresult
  · intro herrno
    have hinterrupted : process 0 (readRecords [] errno) moments s = .ok (0, s) := if_pos herrno
    exact ⟨0, (0, s), hinterrupted,
      { handled := (List.append_nil _).symm, result := rfl, slots := slots_nil (Nat.zero_le _) }⟩

/-- A batch of whole records, each with an entry in the list, comes out as it
    should, whether a device that is refused is counted or not, if and only if
    none is, the array has a slot for every report, and the walk below every new
    directory ends. (A read that gives nothing is taken for an error, unless it
    was interrupted.) -/
theorem reported_iff (counted : Bool) {records : List Record} (errno : Int32)
    (moments : Nat → Moment κ) (s : Notified κ)
    (hsize : (records.flatMap Record.bytes).length ≤ 512)
    (hfound : ∀ r ∈ records, r.Found s.watcher) :
    (∃ fuel p, process fuel (readRecords records errno) moments s = .ok p ∧
        Reported counted moments records s p) ↔
      (records = [] → errno = eintr) ∧
      (∀ (i : Nat) (r : Record), records[i]? = some r →
        r.refused (moments i) (r.path s.watcher) = false) ∧
      (reports counted s.watcher moments records).length ≤ s.cookEvent.length ∧
      ∃ fuel, EndsBy fuel moments records s.watcher := by
  rw [← refusals_eq_zero_iff]
  by_cases hnone : records = []
  · subst hnone
    rw [reported_nothing]
    exact ⟨fun herrno => ⟨fun _ => herrno, rfl, Nat.zero_le _, 0, trivial⟩, fun h => h.1 rfl⟩
  · constructor
    · rintro ⟨fuel, p, hprocess, hreported⟩
      rw [process_records fuel errno hsize hnone] at hprocess
      rcases recordLoop_sum hfound hprocess with ⟨hsum, hends⟩
      have hroom := hreported.slots.room
      have hresult := hreported.result
      rw [Nat.zero_add] at hroom
      refine ⟨fun h => absurd h hnone, ?_, hroom, fuel, hends⟩
      -- What is returned falls short of the reports by the devices that are refused.
      have hmore := length_reports s.watcher moments records
      cases counted with
      | true => omega
      | false => omega
    · rintro ⟨_, hrefused, hroom, fuel, hends⟩
      rcases recordLoop_slots counted hfound hrefused hends (k := 0) (by omega)
        with ⟨s', hloop, hhandled, hslots⟩
      refine ⟨fuel, (_, s'), ?_, { handled := hhandled, result := Int.zero_add _, slots := hslots }⟩
      rw [process_records fuel errno hsize hnone]
      exact hloop

/-- Something by a name of one letter has been created in directory 1. -/
def createdLetter (c : UInt8) (hc : c ≠ 0) : Record :=
  { wd := 1
    mask := inCreate
    cookie := 0
    name := [c]
    zeros := 15
    string := fun h => hc (List.mem_singleton.mp h).symm
    ended := iff_of_false (List.cons_ne_nil _ _) (by omega) }

/-- And `event0`. -/
def createdDevice : Record :=
  { wd := 1
    mask := inCreate
    cookie := 0
    name := eventPrefix ++ [0x30]
    zeros := 10
    string := by decide
    ended := by decide }

/-- A system on which `/d/event0` is a device that cannot be opened, and
    everything else a file. -/
def refusing (i : Nat) : Moment Unit :=
  { inotifyAddWatch := fun _ k => (-1, k)
    inotifyRmWatch := fun _ k => k
    stat := fun p => if p = [slash, 0x64, slash] ++ createdDevice.name then some .chr else some .reg
    opendir := fun _ => none
    openDevice := fun _ => -1
    delDevice := fun _ => -1
    now := { tvSec := UInt32.ofNat i, tvUsec := 0 }
    strTmp := 0 }

def blank : CookEvent :=
  { tTime := { tvSec := 0, tvUsec := 0 }
    filePath := 0, iType := 0, iX := 0, iY := 0, iKey := 0, iPressure := 0, iTrackID := 0
    iTouchMajor := 0 }

/-- Directory 1 is `/d`, and the array has some slots. -/
def oneDir (iSize : Nat) : Notified Unit :=
  { watcher := { kernel := (), directoryPathDescList := [⟨1, [slash, 0x64]⟩], removed := [] }
    cookEvent := List.replicate iSize blank
    devices := []
    handled := [] }

theorem oneDir_found (iSize : Nat) {records : List Record} (h : ∀ r ∈ records, r.wd = 1) :
    ∀ r ∈ records, r.Found (oneDir iSize).watcher := by
  intro r hr _
  refine ⟨⟨1, [slash, 0x64]⟩, List.mem_singleton_self _, ?_⟩
  rw [h r hr]
  rfl

theorem createdLetter_refused (c : UInt8) (hc : c ≠ 0) (m : Moment κ) (strTmp : Path) :
    (createdLetter c hc).refused m strTmp = false := by
  have hname : ¬ eventPrefix <+: (createdLetter c hc).name := by
    intro h
    have hle := h.length_le
    rw [createdLetter, eventPrefix] at hle
    simp only [List.length_cons, List.length_nil] at hle
    omega
  rw [Record.refused, Record.isDevice, decide_eq_false hname, Bool.and_false, Bool.false_and]

/-- Two files. -/
def twoFilesCreated : List Record := [createdLetter 0x62 (by decide), createdLetter 0x63 (by decide)]

theorem reported_iff_two :
    ∃ fuel p, process fuel (readRecords twoFilesCreated 0) refusing (oneDir 2) = .ok p ∧
      Reported true refusing twoFilesCreated (oneDir 2) p := by
  have hall : ∀ r ∈ twoFilesCreated, ∃ c hc, r = createdLetter c hc := by
    intro r hr
    rw [twoFilesCreated, List.mem_cons, List.mem_singleton] at hr
    rcases hr with rfl | rfl
    · exact ⟨_, _, rfl⟩
    · exact ⟨_, _, rfl⟩
  refine (reported_iff true 0 refusing (oneDir 2) (by decide) (oneDir_found 2 fun r hr => ?_)).mpr
    ⟨fun h => absurd h (List.cons_ne_nil _ _), fun i r hi => ?_, by decide, 0, _, rfl, _, rfl, trivial⟩
  · rcases hall r hr with ⟨c, hc, rfl⟩
    rfl
  · rcases hall r (List.mem_of_getElem? hi) with ⟨c, hc, rfl⟩
    exact createdLetter_refused c hc _ _

/-- A file, a device that cannot be opened, and another file. -/
def deviceBetween : List Record :=
  [createdLetter 0x62 (by decide), createdDevice, createdLetter 0x63 (by decide)]

/-- The report of the second file takes the place of that of the first. -/
theorem refused_overwrites :
    (∀ fuel, ∃ s', process fuel (readRecords deviceBetween 0) refusing (oneDir 3) = .ok (1, s') ∧
      s'.cookEvent.map (fun cev => (cev.iType, cev.tTime.tvSec))
        = [(EventType.addFile, 2), (EventType.addDevice, 1), (0, 0)]) ∧
    ∀ counted, ¬ ∃ fuel p, process fuel (readRecords deviceBetween 0) refusing (oneDir 3) = .ok p ∧
      Reported counted refusing deviceBetween (oneDir 3) p := by
  have hrun : ∀ fuel, ∃ s', process fuel (readRecords deviceBetween 0) refusing (oneDir 3) = .ok (1, s') ∧
      s'.cookEvent.map (fun cev => (cev.iType, cev.tTime.tvSec))
        = [(EventType.addFile, 2), (EventType.addDevice, 1), (0, 0)] := by
    intro fuel
    have hsome : deviceBetween ≠ [] := List.cons_ne_nil _ _
    rw [process_records fuel 0 (by decide) hsome]
    exact ⟨_, rfl, by decide⟩
  refine ⟨hrun, ?_⟩
  rintro counted ⟨fuel, p, hprocess, hreported⟩
  rcases hrun fuel with ⟨s', hone, _⟩
  rw [hone, Except.ok.injEq] at hprocess
  have hresult := hreported.result
  have hreports : ∀ counted,
      (reports counted (oneDir 3).watcher refusing deviceBetween).length ≠ 1 := by
    decide
  have hcount := hreports counted
  rw [← hprocess] at hresult
  exact hcount (Int.ofNat.inj hresult.symm)

end InotifyDevice

end Input

end ZeusOS
