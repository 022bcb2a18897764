import ZeusOS.Input.Watching

/-!
# The Records of Directory Events

The kernel writes whole records: a header, and behind it the name, if the event
has one, ended by one zero or more. On what it has written the loop of `process`
takes one record after another, and `recordLoop` is that loop without the bytes.

What a handler does with a record follows from what the record is and from where
its path leads. `handleRecord_eq` says all of it at once: there may be nothing
to report; if there is something, the slot has to be in the array, and for a new
directory the recursion has to end. A device that is refused is reported like
any other before it is opened, and then taken back in the count alone.

## Main definitions

* `Record`: A record, whose name is a string.
* `Record.bytes`: How the kernel writes it.
* `recordLoop`: The loop over records.
* `Record.eventType`, `Record.refused`, `Record.watcherAfter`: What comes of it.

## Theorems

* `process_records`: `process` is the loop over the records that were read.
* `handleRecord_eq`: What one record does.
* `recordLoop_keeps`: What the loop keeps of the list.
-/

namespace ZeusOS

namespace Input

namespace InotifyDevice

open Foundation.Words Foundation.Walks

/-- `struct inotify_event`, and the name behind it. -/
structure Record where
  wd : UInt32
  mask : UInt32
  cookie : UInt32
  name : Path
  /-- How many zeros are behind the name. -/
  zeros : Nat
  string : 0 ∉ name
  ended : name = [] ↔ zeros = 0

namespace Record

/-- The value of `len`. -/
def len (r : Record) : Nat := r.name.length + r.zeros

def bytes (r : Record) : List UInt8 :=
  le32 r.wd ++ (le32 r.mask ++ (le32 r.cookie ++ (le32 (UInt32.ofNat r.len)
    ++ (r.name ++ List.replicate r.zeros 0))))

/-- Something has been created. -/
def isCreate (r : Record) : Bool := r.name ≠ [] ∧ r.mask &&& inCreate ≠ 0

/-- The handler a record is for, if it has a name, and what it is called with. -/
def handlings (r : Record) : List Handling :=
  if r.name = [] then []
  else if r.isCreate then [.processCreate (toInt r.wd) r.name]
  else [.processRemove (toInt r.wd) r.name]

theorem bytes_length (r : Record) : r.bytes.length = inotifyEventSize + r.len := by
  unfold bytes inotifyEventSize len
  simp only [List.length_append, le32_length, List.length_replicate]
  omega

theorem len_eq_zero_iff (r : Record) : r.len = 0 ↔ r.name = [] := by
  rw [len, Nat.add_eq_zero_iff, List.length_eq_zero_iff]
  exact ⟨fun h => h.1, fun h => ⟨h, r.ended.mp h⟩⟩

end Record

variable {κ : Type}

/-- One record, if it has a name. -/
def handleRecord (m : Moment κ) (fuel : Nat) (r : Record) (cev : Int) (s : Notified κ) :
    Except Fault (Int × Notified κ) :=
  if r.name = [] then .ok (0, s)
  else if r.mask &&& inCreate ≠ 0 then processCreate m fuel (toInt r.wd) r.name cev s
  else processRemove m (toInt r.wd) r.name cev s

/-- The loop of `process`. -/
def recordLoop (fuel : Nat) : (Nat → Moment κ) → List Record → Int → Notified κ →
    Except Fault (Int × Notified κ)
  | _, [], iRet, s => .ok (iRet, s)
  | moments, r :: rs, iRet, s =>
    (handleRecord (moments 0) fuel r iRet s).bind fun (n, s) =>
      recordLoop fuel (fun i => moments (i + 1)) rs (iRet + n) s

theorem drop_le32 (w : UInt32) (rest : List UInt8) (n : Nat) :
    (le32 w ++ rest).drop (4 + n) = rest.drop n := by
  rw [← List.drop_drop, List.drop_left' (le32_length w)]

theorem header_bytes (r : Record) (rest : List UInt8) :
    header (r.bytes ++ rest) = some (toInt r.wd, r.mask, UInt32.ofNat r.len) := by
  unfold header Record.bytes
  have hmask : ∀ tail : List UInt8, (le32 r.wd ++ tail).drop 4 = tail := fun tail =>
    drop_le32 r.wd tail 0
  have hlen : ∀ tail : List UInt8,
      (le32 r.wd ++ (le32 r.mask ++ (le32 r.cookie ++ tail))).drop 12 = tail := by
    intro tail
    rw [show 12 = 4 + (4 + (4 + 0)) from rfl, drop_le32, drop_le32, drop_le32, List.drop_zero]
  simp only [List.append_assoc, hmask, hlen, load32_le32, Option.bind_some, Option.map_some]

theorem drop_bytes (r : Record) (rest : List UInt8) :
    (r.bytes ++ rest).drop inotifyEventSize = r.name ++ List.replicate r.zeros 0 ++ rest := by
  unfold Record.bytes
  rw [show inotifyEventSize = 4 + (4 + (4 + (4 + 0))) from rfl]
  simp only [List.append_assoc, drop_le32, List.drop_zero]

/-- A name ends at the first zero behind it. -/
theorem cString_name {r : Record} (hname : r.name ≠ []) (rest : List UInt8) :
    cString (r.name ++ List.replicate r.zeros 0 ++ rest) = .ok r.name := by
  have hzeros : r.zeros ≠ 0 := fun h => hname (r.ended.mpr h)
  obtain ⟨n, hn⟩ : ∃ n, r.zeros = n + 1 := ⟨r.zeros - 1, by omega⟩
  have hpass : ∀ c ∈ r.name, decide (c ≠ 0) = true := by
    intro c hc
    refine decide_eq_true fun heq => r.string ?_
    rwa [← heq]
  rw [hn, List.replicate_succ, List.append_assoc, List.cons_append]
  unfold cString
  rw [if_pos (List.mem_append_right _ List.mem_cons_self), List.takeWhile_append_of_pos hpass,
    List.takeWhile_cons_of_neg (by simp only [ne_eq, not_true, decide_false, Bool.false_eq_true,
      not_false_iff]), List.append_nil]

theorem handle_bytes (m : Moment κ) (fuel : Nat) {r : Record} (hlen : r.len < 2 ^ 32)
    (rest : List UInt8) (cev : Int) (s : Notified κ) :
    handle m fuel (toInt r.wd) r.mask (UInt32.ofNat r.len) ((r.bytes ++ rest).drop inotifyEventSize)
      cev s = handleRecord m fuel r cev s := by
  have hzero : UInt32.ofNat r.len = 0 ↔ r.name = [] := by
    rw [← r.len_eq_zero_iff, ← UInt32.toNat_inj, UInt32.toNat_ofNat_of_lt' hlen]
    rfl
  rw [drop_bytes, handle, handleRecord]
  by_cases hname : r.name = []
  · -- `len` is zero, and neither handler is called.
    rw [if_neg (not_not.mpr (hzero.mpr hname)), if_pos hname]
  · rw [if_pos (fun h => hname (hzero.mp h)), if_neg hname, cString_name hname]
    rfl

theorem processLoop_records (fuel : Nat) {records : List Record}
    (hlen : ∀ r ∈ records, r.len < 2 ^ 32) {turns : Nat} (hturns : records.length ≤ turns)
    (moments : Nat → Moment κ) (iRet : Int) (s : Notified κ) :
    processLoop fuel turns moments (records.flatMap Record.bytes) iRet s
      = recordLoop fuel moments records iRet s := by
  induction records generalizing turns moments iRet s with
  | nil =>
      cases turns with
      | zero => rfl
      | succ turns => rfl
  | cons r rs ih =>
      obtain ⟨turns, rfl⟩ : ∃ n, turns = n + 1 := by
        rw [List.length_cons] at hturns
        exact ⟨turns - 1, by omega⟩
      -- The next header is right behind this record.
      have hr := hlen r List.mem_cons_self
      have hrest : (r.bytes ++ rs.flatMap Record.bytes).drop
          (inotifyEventSize + (UInt32.ofNat r.len).toNat) = rs.flatMap Record.bytes := by
        rw [UInt32.toNat_ofNat_of_lt' hr, ← r.bytes_length, List.drop_left]
      rw [List.flatMap_cons, processLoop, header_bytes, recordLoop]
      simp only [handle_bytes _ _ hr, hrest]
      refine congrArg _ (funext fun ⟨n, s⟩ => ?_)
      refine ih (fun r' hr' => hlen r' (List.mem_cons_of_mem _ hr')) ?_ _ _ _
      rw [List.length_cons] at hturns
      omega

/-- What `read` gives when it has read some records. -/
def readRecords (records : List Record) (errno : Int32) : EventRead :=
  { res := (records.flatMap Record.bytes).length
    errno := errno
    eventBuf := records.flatMap Record.bytes }

theorem length_flatMap_bytes (records : List Record) :
    records.length * inotifyEventSize ≤ (records.flatMap Record.bytes).length ∧
      ∀ r ∈ records, r.len ≤ (records.flatMap Record.bytes).length := by
  induction records with
  | nil => exact ⟨Nat.le_refl _, fun r hr => absurd hr List.not_mem_nil⟩
  | cons r rs ih =>
      rw [List.flatMap_cons, List.length_append, r.bytes_length, List.length_cons, Nat.succ_mul]
      refine ⟨by omega, fun r' hr' => ?_⟩
      rcases List.mem_cons.mp hr' with rfl | hr'
      · omega
      · have hle := ih.2 r' hr'
        omega

/-- On whole records that fit into the buffer, `process` is the loop over them. -/
theorem process_records (fuel : Nat) {records : List Record} (errno : Int32)
    (hsize : (records.flatMap Record.bytes).length ≤ 512) (hsome : records ≠ [])
    (moments : Nat → Moment κ) (s : Notified κ) :
    process fuel (readRecords records errno) moments s = recordLoop fuel moments records 0 s := by
  rcases length_flatMap_bytes records with ⟨hcount, hlen⟩
  have hpos : 0 < records.length := List.length_pos_iff.mpr hsome
  rw [inotifyEventSize] at hcount
  have hread : ¬ ((records.flatMap Record.bytes).length : Int) < (16 : Nat) := by omega
  have hturns : records.length ≤ (records.flatMap Record.bytes).length := by omega
  rw [process]
  refine (if_neg hread).trans (processLoop_records fuel (fun r hr => ?_) hturns moments 0 s)
  have hle := hlen r hr
  omega

/-- Unless nothing was read. -/
theorem process_ok_cases {fuel : Nat} {records : List Record} {errno : Int32}
    (hsize : (records.flatMap Record.bytes).length ≤ 512) {moments : Nat → Moment κ} {s : Notified κ}
    {res : Except Fault (Int × Notified κ)}
    (h : process fuel (readRecords records errno) moments s = res) :
    (∃ n, res = .ok (n, s)) ∨ recordLoop fuel moments records 0 s = res := by
  by_cases hnone : records = []
  · subst hnone
    by_cases herrno : errno = eintr
    · exact Or.inl ⟨0, h.symm.trans (if_pos herrno)⟩
    · exact Or.inl ⟨-1, h.symm.trans (if_neg herrno)⟩
  · exact Or.inr ((process_records fuel errno hsize hnone moments s).symm.trans h)

section

variable (m : Moment κ) (strTmp : Path)

/-- The type of event `processCreate` makes of a path. -/
def createType : Option Int32 :=
  if m.isDir strTmp then some EventType.addDir
  else if m.isRegFile strTmp then some EventType.addFile
  else if m.isCharDevice strTmp then some EventType.addDevice
  else if m.isBlkDevice strTmp then some EventType.addDevice
  else none

namespace Record

variable (r : Record)

/-- The type of the event that is reported, if there is one. -/
def eventType : Option Int32 :=
  if r.name = [] then none
  else if r.isCreate then createType m strTmp
  else some (removeType m strTmp)

/-- A new event device. -/
def isDevice : Bool := r.isCreate && m.isCharDevice strTmp && decide (eventPrefix <+: r.name)

/-- It cannot be opened. -/
def refused : Bool := r.isDevice m strTmp && decide (m.openDevice strTmp < 0)

/-- The devices handed to the reader. -/
def opened : List (Int32 × Path) :=
  if r.isDevice m strTmp && !r.refused m strTmp then [(m.openDevice strTmp, strTmp)] else []

/-- The list after a new directory has been added to it with what is below. -/
def watcherAfter (fuel : Nat) (w : Watcher κ) : Option (Watcher κ) :=
  if r.isCreate && m.isDir strTmp then (addWatchDirectory_R m.toSystem fuel strTmp w).map Prod.snd
  else some w

end Record

end

/-- The path of what a record is about, by the list. -/
def Record.path (w : Watcher κ) (r : Record) : Path :=
  if r.name = [] then []
  else match findWatch (toInt r.wd) w with
    | .ok desc => printPath desc.directoryPath r.name
    | .error _ => []

/-- A path has one type. -/
theorem stat_cases (sys : System κ) (p : Path) :
    (sys.isDir p = true ∧ sys.isCharDevice p = false) ∨
    (sys.isDir p = false ∧ sys.isRegFile p = true ∧ sys.isCharDevice p = false) ∨
    (sys.isDir p = false ∧ sys.isRegFile p = false ∧ sys.isCharDevice p = true) ∨
    (sys.isDir p = false ∧ sys.isRegFile p = false ∧ sys.isCharDevice p = false) := by
  unfold System.isDir System.isRegFile System.isCharDevice
  rcases sys.stat p with _ | type
  · decide
  · cases type <;> decide

/-- `processCreate`, after the search. -/
theorem created_eq (m : Moment κ) (fuel : Nat) {r : Record} (hcreate : r.isCreate = true)
    (strTmp : Path) (cev : Int) (s : Notified κ) :
    created m fuel strTmp r.name cev s =
      match createType m strTmp with
      | none => .ok (0, s)
      | some iType =>
        if 0 ≤ cev ∧ cev < s.cookEvent.length then
          match r.watcherAfter m strTmp fuel s.watcher with
          | none => .error .endless
          | some watcher =>
            .ok (if r.refused m strTmp then -1 else 1,
              { s with
                watcher
                cookEvent := s.cookEvent.modify cev.toNat (cook m iType)
                devices := s.devices ++ r.opened m strTmp })
        else .error .outside := by
  unfold created Record.watcherAfter Record.opened Record.refused Record.isDevice
    createType Notified.write
  by_cases hslot : 0 ≤ cev ∧ cev < s.cookEvent.length
  · simp only [if_pos hslot, hcreate, Bool.true_and]
    rcases stat_cases m.toSystem strTmp with ⟨hdir, hchr⟩ | ⟨hdir, hreg, hchr⟩ | ⟨hdir, hreg, hchr⟩ |
      ⟨hdir, hreg, hchr⟩
    · -- A directory is added with what is below it.
      simp only [hdir, hchr, if_true, Except.bind, Bool.false_and, Bool.false_eq_true, if_false]
      cases addWatchDirectory_R m.toSystem fuel strTmp s.watcher with
      | none => rfl
      | some p => simp only [Option.map_some, List.append_nil]
    · simp only [hdir, hreg, hchr, if_true, if_false, Bool.false_and, Bool.false_eq_true, Except.map,
        List.append_nil]
    · simp only [hdir, hreg, hchr, if_true, if_false, Bool.true_and, Bool.false_eq_true, Except.map]
      -- Only a device by this name is opened.
      by_cases hevent : eventPrefix <+: r.name
      · by_cases hopen : m.openDevice strTmp < 0
        · simp only [hevent, hopen, if_true, decide_true, Bool.true_and, Bool.not_true,
            Bool.false_eq_true, if_false, List.append_nil]
        · simp only [hevent, hopen, if_true, decide_true, decide_false, Bool.true_and, Bool.not_false,
            Bool.false_eq_true, if_false]
      · simp only [hevent, decide_false, Bool.false_and, Bool.false_eq_true, if_false, List.append_nil]
    · cases hblk : m.isBlkDevice strTmp with
      | true => simp only [hdir, hreg, hchr, Bool.false_and, Bool.false_eq_true, if_true, if_false, Except.map,
          List.append_nil]
      | false => simp only [hdir, hreg, hchr, Bool.false_eq_true, if_false]
  · -- Whatever there is to report, it is the slot that is missing.
    simp only [if_neg hslot, hcreate]
    cases m.isDir strTmp with
    | true => rfl
    | false =>
        cases m.isRegFile strTmp with
        | true => rfl
        | false =>
            cases m.isCharDevice strTmp with
            | true => rfl
            | false =>
                cases m.isBlkDevice strTmp with
                | true => rfl
                | false => rfl

/-- The list has an entry for the record, if the record has a name. -/
def Record.Found (w : Watcher κ) (r : Record) : Prop :=
  r.name ≠ [] → ∃ desc ∈ w.directoryPathDescList, desc.iWd = toInt r.wd

theorem findWatch_of_found {w : Watcher κ} {r : Record} (h : r.Found w) (hname : r.name ≠ []) :
    ∃ desc, findWatch (toInt r.wd) w = .ok desc := by
  rcases h hname with ⟨desc, hdesc, hwd⟩
  unfold findWatch
  cases hfind : w.directoryPathDescList.find? fun desc => desc.iWd = toInt r.wd with
  | some desc => exact ⟨desc, rfl⟩
  | none => exact absurd (decide_eq_true hwd) (List.find?_eq_none.mp hfind desc hdesc)

/-- What one record does. -/
theorem handleRecord_eq (m : Moment κ) (fuel : Nat) {r : Record} (cev : Int) {s : Notified κ}
    (hfound : r.Found s.watcher) :
    handleRecord m fuel r cev s =
      match r.eventType m (r.path s.watcher) with
      | none => .ok (0, { s with handled := s.handled ++ r.handlings })
      | some iType =>
        if 0 ≤ cev ∧ cev < s.cookEvent.length then
          match r.watcherAfter m (r.path s.watcher) fuel s.watcher with
          | none => .error .endless
          | some watcher =>
            .ok (if r.refused m (r.path s.watcher) then -1 else 1,
              { watcher
                cookEvent := s.cookEvent.modify cev.toNat (cook m iType)
                devices := s.devices ++ r.opened m (r.path s.watcher)
                handled := s.handled ++ r.handlings })
        else .error .outside := by
  by_cases hname : r.name = []
  · rw [handleRecord, if_pos hname, Record.eventType, if_pos hname, Record.handlings, if_pos hname,
      List.append_nil]
  · rcases findWatch_of_found hfound hname with ⟨desc, hdesc⟩
    have hpath : r.path s.watcher = printPath desc.directoryPath r.name := by
      rw [Record.path, if_neg hname, hdesc]
    rw [hpath, handleRecord, if_neg hname]
    -- The mask tells the two handlers apart.
    by_cases hmask : r.mask &&& inCreate ≠ 0
    · have hcreate : r.isCreate = true := decide_eq_true ⟨hname, hmask⟩
      rw [if_pos hmask, processCreate, hdesc, Record.handlings, if_neg hname, if_pos hcreate]
      rw [Record.eventType, if_neg hname, if_pos hcreate]
      exact created_eq m fuel hcreate _ cev _
    · have hremove : r.isCreate = false := decide_eq_false fun h => hmask h.2
      rw [if_neg hmask, processRemove, hdesc, Record.handlings, if_neg hname, if_neg (by
        rw [hremove]; exact Bool.false_ne_true)]
      unfold Record.eventType Record.watcherAfter Record.opened Record.refused Record.isDevice
        Notified.write
      simp only [hname, hremove, Bool.false_and, Bool.false_eq_true, if_false, Except.bind,
        List.append_nil]
      split
      · rfl
      · rfl

/-- Without an entry the search comes to the end of the list. -/
theorem handleRecord_atEnd (m : Moment κ) (fuel : Nat) {r : Record} (cev : Int) {s : Notified κ}
    (hfound : ¬ r.Found s.watcher) : handleRecord m fuel r cev s = .error .atEnd := by
  rcases Classical.not_imp.mp hfound with ⟨hname, hnone⟩
  have hfind : findWatch (toInt r.wd) s.watcher = .error .atEnd := by
    unfold findWatch
    cases hfind : s.watcher.directoryPathDescList.find? fun desc => desc.iWd = toInt r.wd with
    | none => rfl
    | some desc =>
        have hwd := List.find?_some hfind
        simp only [decide_eq_true_eq] at hwd
        exact absurd ⟨desc, List.mem_of_find?_eq_some hfind, hwd⟩ hnone
  rw [handleRecord, if_neg hname, processCreate, processRemove, hfind]
  exact ite_self _

/-- And a handler that finds its entry fails for another reason, if at all. -/
theorem handleRecord_ne_atEnd {m : Moment κ} {fuel : Nat} {r : Record} {cev : Int} {s : Notified κ}
    (hfound : r.Found s.watcher) : handleRecord m fuel r cev s ≠ .error .atEnd := by
  intro h
  rw [handleRecord_eq m fuel cev hfound] at h
  split at h
  · cases h
  · split at h
    · split at h
      · cases h
      · cases h
    · cases h

/-- What adding a directory keeps of the list, a new directory keeps. -/
theorem watcherAfter_keeps {P : Watcher κ → Prop} {m : Moment κ}
    (hkeep : ∀ q w, P w → P (addWatchDirectory m.toSystem q w).2) {r : Record} {strTmp : Path}
    {fuel : Nat} {w w' : Watcher κ} (h : r.watcherAfter m strTmp fuel w = some w') (hw : P w) :
    P w' := by
  unfold Record.watcherAfter at h
  split at h
  · -- The walk begins when the new directory itself has been added.
    rw [addWatchDirectory_R_walk] at h
    exact walk_keeps hkeep h (hkeep strTmp w hw)
  · cases h
    exact hw

/-- Entries are added behind those that there are. -/
theorem addWatchDirectory_extends (sys : System κ) (q : Path) (w : Watcher κ) :
    w.directoryPathDescList <+: (addWatchDirectory sys q w).2.directoryPathDescList := by
  rcases addWatchDirectory_spec sys q w with ⟨hrefused, haccepted⟩
  by_cases hneg : (sys.inotifyAddWatch q w.kernel).1 < 0
  · simp only [hrefused hneg, List.prefix_rfl]
  · simp only [haccepted hneg, List.prefix_append]

theorem watcherAfter_extends {m : Moment κ} {r : Record} {strTmp : Path} {fuel : Nat}
    {w w' : Watcher κ} (h : r.watcherAfter m strTmp fuel w = some w') :
    w.directoryPathDescList <+: w'.directoryPathDescList := by
  have hkeep : ∀ q u, w.directoryPathDescList <+: u.directoryPathDescList →
      w.directoryPathDescList <+: (addWatchDirectory m.toSystem q u).2.directoryPathDescList :=
    fun q u hu => hu.trans (addWatchDirectory_extends _ q u)
  exact watcherAfter_keeps hkeep h (List.prefix_refl _)

/-- So what is found stays so, -/
theorem found_of_extends {w w' : Watcher κ}
    (h : w.directoryPathDescList <+: w'.directoryPathDescList) {r : Record} (hfound : r.Found w) :
    r.Found w' := by
  intro hname
  rcases hfound hname with ⟨desc, hdesc, hwd⟩
  exact ⟨desc, h.subset hdesc, hwd⟩

/-- by the same path. -/
theorem path_of_extends {w w' : Watcher κ}
    (h : w.directoryPathDescList <+: w'.directoryPathDescList) {r : Record} (hfound : r.Found w) :
    r.path w' = r.path w := by
  unfold Record.path
  by_cases hname : r.name = []
  · rw [if_pos hname, if_pos hname]
  · rcases findWatch_of_found hfound hname with ⟨desc, hdesc⟩
    have hdesc' : findWatch (toInt r.wd) w' = .ok desc := by
      rcases h with ⟨es, hes⟩
      unfold findWatch at hdesc ⊢
      -- The search comes to the old entries first.
      rw [← hes, List.find?_append]
      cases hfind : w.directoryPathDescList.find? fun desc => desc.iWd = toInt r.wd with
      | none =>
          rw [hfind] at hdesc
          cases hdesc
      | some found =>
          rw [hfind] at hdesc
          exact hdesc
    rw [hdesc, hdesc']

/-- What a handler returns. -/
def Record.result (m : Moment κ) (strTmp : Path) (r : Record) : Int :=
  match r.eventType m strTmp with
  | none => 0
  | some _ => if r.refused m strTmp then -1 else 1

/-- Where there is nothing to report, there is no new directory. -/
theorem watcherAfter_of_none {m : Moment κ} {strTmp : Path} {r : Record}
    (h : r.eventType m strTmp = none) (fuel : Nat) (w : Watcher κ) :
    r.watcherAfter m strTmp fuel w = some w := by
  refine if_neg fun hdir => ?_
  rw [Bool.and_eq_true] at hdir
  have hname : r.name ≠ [] := (of_decide_eq_true hdir.1).1
  rw [Record.eventType, if_neg hname, if_pos hdir.1, createType, if_pos hdir.2] at h
  cases h

/-- What follows from a handler's return. -/
theorem handleRecord_ok {m : Moment κ} {fuel : Nat} {r : Record} {cev n : Int} {s s' : Notified κ}
    (h : handleRecord m fuel r cev s = .ok (n, s')) :
    r.Found s.watcher ∧ n = r.result m (r.path s.watcher) ∧
      r.watcherAfter m (r.path s.watcher) fuel s.watcher = some s'.watcher := by
  have hfound : r.Found s.watcher := by
    by_contra hmissing
    rw [handleRecord_atEnd m fuel cev hmissing] at h
    cases h
  rw [handleRecord_eq m fuel cev hfound] at h
  refine ⟨hfound, ?_⟩
  unfold Record.result
  cases htype : r.eventType m (r.path s.watcher) with
  | none =>
      rw [htype] at h
      cases h
      exact ⟨rfl, watcherAfter_of_none htype fuel s.watcher⟩
  | some iType =>
      simp only [htype] at h
      split at h
      · split at h
        · cases h
        · rename_i watcher hafter
          cases h
          exact ⟨rfl, hafter⟩
      · cases h

/-- The loop past one record. -/
theorem recordLoop_cons {fuel : Nat} {moments : Nat → Moment κ} {r : Record} {rs : List Record}
    {iRet : Int} {s : Notified κ} {p : Int × Notified κ}
    (h : recordLoop fuel moments (r :: rs) iRet s = .ok p) :
    ∃ n s', handleRecord (moments 0) fuel r iRet s = .ok (n, s') ∧
      recordLoop fuel (fun i => moments (i + 1)) rs (iRet + n) s' = .ok p := by
  rw [recordLoop] at h
  cases hr : handleRecord (moments 0) fuel r iRet s with
  | error fault =>
      rw [hr] at h
      cases h
  | ok res =>
      rw [hr] at h
      exact ⟨res.1, res.2, rfl, h⟩

/-- What adding a directory keeps of the list, the loop keeps. -/
theorem recordLoop_keeps {P : Watcher κ → Prop} {moments : Nat → Moment κ}
    (hkeep : ∀ i q w, P w → P (addWatchDirectory (moments i).toSystem q w).2) {fuel : Nat}
    {records : List Record} {iRet : Int} {s : Notified κ} {p : Int × Notified κ}
    (h : recordLoop fuel moments records iRet s = .ok p) (hs : P s.watcher) : P p.2.watcher := by
  induction records generalizing moments iRet s with
  | nil =>
      cases h
      exact hs
  | cons r rs ih =>
      rcases recordLoop_cons h with ⟨n, s', hr, hrest⟩
      rcases handleRecord_ok hr with ⟨_, _, hafter⟩
      refine ih (fun i q w hw => hkeep (i + 1) q w hw) hrest ?_
      exact watcherAfter_keeps (hkeep 0) hafter hs

/-- If every record has an entry, no search comes to the end of the list. -/
theorem recordLoop_found (fuel : Nat) (moments : Nat → Moment κ) {records : List Record} (iRet : Int)
    {s : Notified κ} (hfound : ∀ r ∈ records, r.Found s.watcher) :
    recordLoop fuel moments records iRet s ≠ .error .atEnd := by
  induction records generalizing moments iRet s with
  | nil =>
      intro h
      cases h
  | cons r rs ih =>
      intro h
      rw [recordLoop] at h
      cases hr : handleRecord (moments 0) fuel r iRet s with
      | error fault =>
          -- This record has an entry, so it was another fault.
          rw [hr] at h
          cases h
          exact handleRecord_ne_atEnd (hfound r List.mem_cons_self) hr
      | ok res =>
          rw [hr] at h
          rcases handleRecord_ok (show handleRecord (moments 0) fuel r iRet s = .ok (res.1, res.2) from hr)
            with ⟨_, _, hafter⟩
          refine ih (fun i => moments (i + 1)) (iRet + res.1) (fun r' hr' => ?_) h
          exact found_of_extends (watcherAfter_extends hafter)
            (hfound r' (List.mem_cons_of_mem _ hr'))

end InotifyDevice

end Input

end ZeusOS
