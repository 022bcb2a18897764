import ZeusOS.Calibrate.Session
import ZeusOS.Foundation.Overlay
import ZeusOS.Foundation.Runs
import ZeusOS.Foundation.Words

/-!
# The Calibration File

What outlasts a process: `startCalibrate` writes its result to a file, and
`readConfigSetCalibrateInfo` reads it back, or starts a calibration if there is
no file.

The structure is written as it is in memory and read over what is in memory, and
neither side looks at how much went across. Before it writes, `startCalibrate`
removes the old file, and opens one without asking that it be empty. So a
process that is calibrated has the result of the last calibration there was, in
whichever process that was, if three things are so: what is written and what is
read is written and read whole, and no old file can neither be removed nor be
opened. If one thing fails that way, the process is calibrated all the same.

What was computed is what `Inversion` says of the panel, and no more. So a
process that says it is calibrated gives the points that were touched exactly if
the panel reads the centre of the screen alike on both axes, and otherwise it
keeps the shifted ones over every boot.

A boot may come at any time, and so may the end of the process in the middle of
`startCalibrate`: it is a calibration after which the file could not be created,
or was not written whole.

## Main definitions

* `Answers`: What the system says.
* `Machine`, `Occurrence`, `happen`: A process and the file, and what becomes of
  them.
* `Points.Fits`, `Trusted`: What is asked of the readings, of the system, and of
  the panel.

## Theorems

* `saved_whole`: What a calibration leaves in the file.
* `happen_holds`: What a step keeps.
* `calibration_kept`: What a process has that says it is calibrated, in every run.
-/

namespace ZeusOS

namespace Calibrate

open Foundation.Axes Foundation.Overlay Foundation.Runs Foundation.Words

/-- `sizeof(struct CalibrateInfo)`. -/
def calibrateInfoSize : Nat := 40

/-- What the system says of `/etc/calibrateInfo`: whether it is opened for
    reading, removed, and opened to be written, and the most that is read and
    written. -/
structure Answers where
  opens : Bool
  removes : Bool
  creates : Bool
  iRead : Nat
  iWritten : Nat

/-- The object of a process, with the structure as it is in memory, and the file,
    if there is one. Besides, there is what was computed last. -/
structure Machine where
  mtCalibrateInfo : List UInt8
  mHasCalibrated : Bool
  file : Option (List UInt8)
  last : Option CalibrateInfo

/-- The constructor. `mInterchangeXY` is the first byte, and the others are what
    they were. -/
def Machine.boot (memory : List UInt8) (s : Machine) : Machine :=
  { s with mtCalibrateInfo := memory.set 0 0, mHasCalibrated := false }

/-- The first process, before there is a file. -/
def Machine.start (memory : List UInt8) : Machine :=
  Machine.boot memory { mtCalibrateInfo := [], mHasCalibrated := false, file := none, last := none }

/-- The end of `startCalibrate`: what is in the file afterwards. -/
def save (answers : Answers) (info : List UInt8) (file : Option (List UInt8)) :
    Option (List UInt8) :=
  let file := if file.isSome ∧ answers.removes then none else file
  -- A file that was not removed is not emptied either.
  if answers.creates then some (overlay (file.getD []) (info.take answers.iWritten)) else file

section Functions

variable (image : CalibrateInfo → List UInt8) (iXres iYres : Int) (iL : Int32 × Int32)

/-- `startCalibrate`, on the calls of `readOnce` that are still to come. -/
def Machine.startCalibrate (answers : Answers) (reads : List Read) (s : Machine) : Option Machine :=
  (Calibrate.startCalibrate iXres iYres (sampleTarget iL) reads).map fun (state, _) =>
    { mtCalibrateInfo := image state.mtCalibrateInfo
      mHasCalibrated := state.mHasCalibrated
      file := save answers (image state.mtCalibrateInfo) s.file
      last := some state.mtCalibrateInfo }

/-- `readConfigSetCalibrateInfo`. -/
def Machine.readConfigSetCalibrateInfo (answers : Answers) (reads : List Read) (s : Machine) :
    Option (Int × Machine) :=
  match s.file with
  | none => (s.startCalibrate image iXres iYres iL answers reads).map fun s => (0, s)
  | some bytes =>
    if answers.opens then
      some (0, { s with
        mHasCalibrated := true
        mtCalibrateInfo := overlay s.mtCalibrateInfo
          (bytes.take (min calibrateInfoSize answers.iRead)) })
    else some (-1, s)

/-- What can happen next. -/
inductive Occurrence where
  /-- A new process, in whose memory there was this. -/
  | boot (memory : List UInt8)
  | readConfigSetCalibrateInfo (answers : Answers) (reads : List Read)
  | startCalibrate (answers : Answers) (reads : List Read)

def happen (s : Machine) : Occurrence → Option Machine
  | .boot memory => if memory.length = calibrateInfoSize then some (s.boot memory) else none
  | .readConfigSetCalibrateInfo answers reads =>
    (s.readConfigSetCalibrateInfo image iXres iYres iL answers reads).map Prod.snd
  | .startCalibrate answers reads => s.startCalibrate image iXres iYres iL answers reads

end Functions

/-- What is written is written whole, and an old file is removed if it is not
    opened. -/
def Answers.Saves (answers : Answers) (file : Option (List UInt8)) : Prop :=
  (answers.creates = true → calibrateInfoSize ≤ answers.iWritten) ∧
    (file.isSome = true → answers.removes = true ∨ answers.creates = true)

/-- What is read is read whole. -/
def Answers.Loads (answers : Answers) : Prop :=
  answers.opens = true → calibrateInfoSize ≤ answers.iRead

/-- The sides of these readings, and the sums of opposite ones, are numbers of
    type `int`, and so are those without their sign. -/
def Points.Fits (tPoint_L : Points) : Prop :=
  let aS_L := tPoint_L.sides
  ∀ x ∈ [aS_L.top, aS_L.right, aS_L.bottom, aS_L.left, aS_L.top + aS_L.bottom,
    aS_L.right + aS_L.left], abs x < 2147483648

/-- The calls bring the readings of the panel at the targets, which are not too
    far apart. -/
def SampledOn (panel : Panel) (iXres iYres : Int) (iL : Int32 × Int32) (reads : List Read) : Prop :=
  ∃ (touch : Int → Int → Int × Int) (held : PointDesc → List Read) (more : List Read),
    panel.Touched (targets iXres iYres) touch ∧
      ((targets iXres iYres).map (reading panel.interchanged touch)).Fits ∧
      (∀ t ∈ (targets iXres iYres).toList, Brings iL touch t (held t)) ∧
        reads = ((targets iXres iYres).toList.map held).flatten ++ more

/-- What is asked of the system, and of the panel. -/
def Trusted (panel : Panel) (iXres iYres : Int) (iL : Int32 × Int32) (s : Machine) :
    Occurrence → Prop
  | .boot _ => True
  | .readConfigSetCalibrateInfo answers reads =>
    (s.file = none → answers.Saves s.file ∧ SampledOn panel iXres iYres iL reads) ∧
      (s.file ≠ none → answers.Loads)
  | .startCalibrate answers reads => answers.Saves s.file ∧ SampledOn panel iXres iYres iL reads

variable {image : CalibrateInfo → List UInt8} {panel : Panel} {iXres iYres : Int}
  {iL : Int32 × Int32} {s s' : Machine}

/-- What was computed last is there, wherever there is anything. -/
structure Holds (image : CalibrateInfo → List UInt8) (panel : Panel) (iXres iYres : Int)
    (s : Machine) : Prop where
  last : ∀ info, s.last = some info → ComputedOn panel iXres iYres info
  memory : s.mHasCalibrated = true → ∃ info, s.last = some info ∧ s.mtCalibrateInfo = image info
  file : ∀ bytes, s.file = some bytes → ∃ info, s.last = some info ∧ bytes = image info
  width : s.mHasCalibrated = false → s.mtCalibrateInfo.length ≤ calibrateInfoSize

theorem boot_width {memory : List UInt8} (hlength : memory.length = calibrateInfoSize) :
    (s.boot memory).mtCalibrateInfo.length ≤ calibrateInfoSize := by
  rw [Machine.boot, List.length_set]
  exact Nat.le_of_eq hlength

theorem holds_start {memory : List UInt8} (hlength : memory.length = calibrateInfoSize) :
    Holds image panel iXres iYres (Machine.start memory) := by
  refine ⟨fun info h => ?_, fun h => ?_, fun bytes h => ?_, fun _ => boot_width hlength⟩
  all_goals cases h

/-- A record that is as long as its place leaves nothing of what was there. -/
theorem overlay_covers {room chunk : List UInt8} (h : room.length ≤ chunk.length) :
    overlay room chunk = chunk := by
  rw [overlay, List.drop_eq_nil_of_le h, List.append_nil]

/-- A calibration that is saved leaves its result in the file, or no file. -/
theorem saved_whole {answers : Answers} {info : List UInt8} {file : Option (List UInt8)}
    (hinfo : info.length = calibrateInfoSize) (hsaves : answers.Saves file)
    (hold : ∀ bytes, file = some bytes → bytes.length ≤ calibrateInfoSize) {bytes : List UInt8}
    (h : save answers info file = some bytes) : bytes = info := by
  unfold save at h
  cases hcreates : answers.creates with
  | true =>
      have htake : info.take answers.iWritten = info := by
        rw [List.take_of_length_le]
        rw [hinfo]
        exact hsaves.1 hcreates
      rw [if_pos hcreates, Option.some.injEq, htake] at h
      rw [← h]
      refine overlay_covers ?_
      -- The old file is gone, or it is no longer than the new one.
      rw [hinfo]
      split
      · exact Nat.zero_le _
      · rcases file with _ | bytes
        · exact Nat.zero_le _
        · exact hold bytes rfl
  | false =>
      rw [hcreates, if_neg Bool.false_ne_true] at h
      rcases file with _ | bytes
      · simp only [Option.isSome_none, Bool.false_eq_true, false_and, if_false, reduceCtorEq] at h
      · have hremoves : answers.removes = true := by
          rcases hsaves.2 rfl with hremoves | hc
          · exact hremoves
          · rw [hcreates] at hc
            cases hc
        simp only [Option.isSome_some, hremoves, and_self, if_true, reduceCtorEq] at h

/-- A session on the panel, and what is left of it. -/
theorem startCalibrate_holds (hsize : ∀ info, (image info).length = calibrateInfoSize)
    (hx : iXres ≠ 100) (hy : iYres ≠ 100) (hs : Holds image panel iXres iYres s)
    {answers : Answers} {reads : List Read} (hsaves : answers.Saves s.file)
    (hsampled : SampledOn panel iXres iYres iL reads)
    (h : s.startCalibrate image iXres iYres iL answers reads = some s') :
    Holds image panel iXres iYres s' := by
  rcases hsampled with ⟨touch, held, more, htouch, _, hbrings, rfl⟩
  rcases session_computed hx hy htouch hbrings more with ⟨state, hsession, hhas, hcomputed⟩
  rw [Machine.startCalibrate, hsession, Option.map_some, Option.some.injEq] at h
  rw [← h]
  refine ⟨fun info hinfo => ?_, fun _ => ⟨_, rfl, rfl⟩, fun bytes hbytes => ⟨_, rfl, ?_⟩, ?_⟩
  · rw [← Option.some.inj hinfo]
    exact hcomputed
  · refine saved_whole (hsize _) hsaves (fun old hold => ?_) hbytes
    rcases hs.file old hold with ⟨info, _, rfl⟩
    exact Nat.le_of_eq (hsize info)
  · intro hnot
    have hnot : state.mHasCalibrated = false := hnot
    rw [hhas] at hnot
    cases hnot

theorem happen_holds (hsize : ∀ info, (image info).length = calibrateInfoSize)
    (hx : iXres ≠ 100) (hy : iYres ≠ 100) (s : Machine) (o : Occurrence) (s' : Machine)
    (hs : Holds image panel iXres iYres s) (htrusted : Trusted panel iXres iYres iL s o)
    (h : happen image iXres iYres iL s o = some s') : Holds image panel iXres iYres s' := by
  cases o with
  | boot memory =>
      simp only [happen, Option.ite_none_right_eq_some, Option.some.injEq] at h
      rcases h with ⟨hlength, rfl⟩
      refine ⟨hs.last, fun hnot => ?_, hs.file, fun _ => ?_⟩
      · cases hnot
      · exact boot_width hlength
  | startCalibrate answers reads =>
      exact startCalibrate_holds hsize hx hy hs htrusted.1 htrusted.2 h
  | readConfigSetCalibrateInfo answers reads =>
      simp only [happen, Machine.readConfigSetCalibrateInfo, Option.map_eq_some_iff] at h
      rcases h with ⟨⟨iRet, t⟩, h, rfl⟩
      rcases hfile : s.file with _ | bytes
      · simp only [hfile, Option.map_eq_some_iff, Prod.mk.injEq] at h
        rcases h with ⟨t', h, _, rfl⟩
        rcases htrusted.1 hfile with ⟨hsaves, hsampled⟩
        exact startCalibrate_holds hsize hx hy hs hsaves hsampled h
      · rcases hs.file bytes hfile with ⟨info, hlast, rfl⟩
        simp only [hfile] at h
        split at h
        · rename_i hopens
          -- The file has the whole structure, and it lies over all of the memory.
          have hread := htrusted.2 (by rw [hfile]; exact Option.some_ne_none _) hopens
          have htake : (image info).take (min calibrateInfoSize answers.iRead) = image info := by
            rw [Nat.min_eq_left hread, List.take_of_length_le]
            exact Nat.le_of_eq (hsize info)
          have hwidth : s.mtCalibrateInfo.length ≤ (image info).length := by
            rw [hsize]
            cases hhas : s.mHasCalibrated with
            | false => exact hs.width hhas
            | true =>
                rcases hs.memory hhas with ⟨old, _, hold⟩
                rw [hold]
                exact Nat.le_of_eq (hsize old)
          rw [Option.some.injEq, Prod.mk.injEq] at h
          rw [← h.2, htake, overlay_covers hwidth]
          refine ⟨hs.last, fun _ => ⟨info, hlast, rfl⟩, fun old hold => ?_, fun hnot => ?_⟩
          · exact hs.file old (hfile.trans hold)
          · cases hnot
        · rw [Option.some.injEq, Prod.mk.injEq] at h
          rw [← h.2]
          exact hs

/-- In every run of boots, calibrations and starts from the file, whatever was in
    memory and whichever files could not be opened, removed or created: if what
    is transferred is transferred whole, and no old file stays that could not be
    opened, every process that says it is calibrated has, byte for byte, what
    the last calibration computed of the panel's readings, and so is what is in
    the file. It gives every point back exactly if the panel reads the centre of
    the screen alike on both axes. -/
theorem calibration_kept (hsize : ∀ info, (image info).length = calibrateInfoSize)
    (hx : iXres ≠ 100) (hy : iYres ≠ 100) {memory : List UInt8}
    (hlength : memory.length = calibrateInfoSize) (occurrences : List Occurrence)
    (htrusted : Along (happen image iXres iYres iL) (Trusted panel iXres iYres iL)
      (Machine.start memory) occurrences)
    (hrun : run (happen image iXres iYres iL) (Machine.start memory) occurrences = some s) :
    (s.mHasCalibrated = true →
        ∃ info, s.last = some info ∧ s.mtCalibrateInfo = image info) ∧
      (∀ bytes, s.file = some bytes → ∃ info, s.last = some info ∧ bytes = image info) ∧
      ∀ info, s.last = some info → ComputedOn panel iXres iYres info ∧
        ((∀ X Y : ℚ, info.convert (panel.raw X Y) = (X, Y)) ↔
          panel.horizontal.read (targets iXres iYres).centre.iX
            = panel.vertical.read (targets iXres iYres).centre.iY) := by
  have hs : Holds image panel iXres iYres s :=
    always_of_along (happen image iXres iYres iL) (Holds image panel iXres iYres)
      (Trusted panel iXres iYres iL) (happen_holds hsize hx hy) _ occurrences
      (holds_start hlength) htrusted occurrences [] s (List.append_nil _).symm hrun
  exact ⟨hs.memory, hs.file, fun info hlast =>
    ⟨hs.last info hlast, convert_iff (hs.last info hlast)⟩⟩

/-- Two doubles as they are in memory. -/
def doubleBytes (x : ℚ) : List UInt8 :=
  if x = 2 then [0, 0, 0, 0, 0, 0, 0x00, 0x40]
  else if x = 3 then [0, 0, 0, 0, 0, 0, 0x08, 0x40]
  else List.replicate 8 0

theorem doubleBytes_length (x : ℚ) : (doubleBytes x).length = 8 := by
  unfold doubleBytes
  split
  · rfl
  · split
    · rfl
    · rfl

/-- The structure in memory, where its factors are two and three. -/
def sampleImage (info : CalibrateInfo) : List UInt8 :=
  (if info.mInterchangeXY then 1 else 0) :: List.replicate 7 0 ++ doubleBytes info.iKx
    ++ doubleBytes info.iKy
    ++ [info.iXLc, info.iYLc, info.iXc, info.iYc].flatMap fun x => le32 (Int32.ofInt x).toUInt32

theorem sampleImage_length (info : CalibrateInfo) :
    (sampleImage info).length = calibrateInfoSize := by
  simp only [sampleImage, List.length_append, List.length_cons, List.length_replicate,
    doubleBytes_length, encoded_length fun x : Int => le32_length (Int32.ofInt x).toUInt32,
    List.length_nil, calibrateInfoSize]

/-- A press of the panel at a point, and its release. -/
def tap (t : PointDesc) : List Read :=
  [.ofBatch [touchEvent (Int32.ofInt (3 * t.iY + 82)) (Int32.ofInt (2 * t.iX + 10)) 1],
    .ofBatch [touchEvent 0 0 0]]

/-- A tap is sampled where it was pressed. -/
theorem showTargetToLCD_tap (iL : Int32 × Int32) (t : PointDesc) :
    showTargetToLCD iL (tap t)
      = some ((Int32.ofInt (3 * t.iY + 82), Int32.ofInt (2 * t.iX + 10)), []) := by
  have hbrings : ∀ e, ¬ (Read.ofBatch [e]).iRet ≤ 0 := by
    intro e
    exact Int.not_le.mpr Int.one_pos
  unfold tap
  rw [loop_press _ _ (hbrings _) rfl, loop_release _ _ (hbrings _) rfl]
  rfl

theorem sampledOn_taps :
    SampledOn samplePanel 480 272 (0, 0) ((targets 480 272).toList.map tap).flatten := by
  refine ⟨fun iX iY => (3 * iY + 82, 2 * iX + 10), tap, [], samplePanel_touched _, ?_, ?_,
    (List.append_nil _).symm⟩
  · unfold Points.Fits
    decide
  intro t ht
  refine ⟨_, showTargetToLCD_tap _ t, ?_⟩
  simp only [Points.toList, targets, List.mem_cons, List.not_mem_nil, or_false] at ht
  rcases ht with rfl | rfl | rfl | rfl | rfl
  all_goals decide

/-- Everything works. -/
def sampleAnswers : Answers :=
  { opens := true, removes := true, creates := true, iRead := 40, iWritten := 40 }

/-- The first process calibrates itself, since there is no file, and so the second
    has what the first computed. On this panel it gives every point back. -/
def twoBoots : List Occurrence :=
  [.readConfigSetCalibrateInfo sampleAnswers ((targets 480 272).toList.map tap).flatten,
    .boot (List.replicate 40 255),
    .readConfigSetCalibrateInfo sampleAnswers ((targets 480 272).toList.map tap).flatten]

theorem calibration_kept_sample :
    ∃ s, run (happen sampleImage 480 272 (0, 0)) (Machine.start (List.replicate 40 255)) twoBoots
        = some s ∧
      ∃ info, s.mtCalibrateInfo = sampleImage info ∧ ComputedOn samplePanel 480 272 info ∧
        ∀ X Y : ℚ, info.convert (samplePanel.raw X Y) = (X, Y) := by
  have hparts : (run (happen sampleImage 480 272 (0, 0)) (Machine.start (List.replicate 40 255))
      twoBoots).map Machine.mHasCalibrated = some true := by decide +kernel
  rcases Option.map_eq_some_iff.mp hparts with ⟨s, hrun, hhas⟩
  have hsaves : ∀ file, sampleAnswers.Saves file :=
    fun _ => ⟨fun _ => Nat.le_refl 40, fun _ => Or.inl rfl⟩
  have hloads : sampleAnswers.Loads := fun _ => Nat.le_refl 40
  rcases calibration_kept sampleImage_length (by decide) (by decide) List.length_replicate twoBoots
    (fun before o after u heq _ => by
      have hmem : o ∈ before ++ o :: after := List.mem_append_right _ List.mem_cons_self
      rw [← heq, twoBoots, List.mem_cons, List.mem_cons, List.mem_singleton] at hmem
      rcases hmem with rfl | rfl | rfl
      · exact ⟨fun _ => ⟨hsaves _, sampledOn_taps⟩, fun _ => hloads⟩
      · trivial
      · exact ⟨fun _ => ⟨hsaves _, sampledOn_taps⟩, fun _ => hloads⟩) hrun with
    ⟨hmemory, _, hlast⟩
  rcases hmemory hhas with ⟨info, hinfo, himage⟩
  rcases hlast info hinfo with ⟨hcomputed, hconvert⟩
  refine ⟨s, hrun, info, himage, hcomputed, hconvert.mpr ?_⟩
  rw [sample_centre]
  norm_num [samplePanel, Axis.read]

end Calibrate

end ZeusOS
