import Mathlib.Data.Rat.Cast.CharZero
import Mathlib.Tactic.NormNum
import ZeusOS.Foundation.Axes
import ZeusOS.Calibrate.Calibrate

/-!
# What Calibration Undoes

A panel reads each direction of the screen on a linear scale of its own, and
hands the two readings over in their order or the other way round. Whatever its
scales, `startCalibrate` sees which way it is, and finds both of them: it
exchanges the readings that it took before it knew, samples the others the
other way round, and takes the mean of opposite sides.

Then it stores the reading of the centre, and there it stores the first
coordinate twice. Where the panel reads the centre of the screen alike on both
of its axes, nothing comes of it. On every other panel the points come out
shifted, all by the same distance and all downwards or all upwards, which
`convert_raw` gives.

## Main definitions

* `Panel`, `Panel.raw`: A panel, and what it reads.
* `Panel.Touched`: The readings at the five targets, which are integers.
* `Points.map`: A reading for each point.
* `ComputedOn`: What comes of a panel, with the reading that is stored twice.

## Theorems

* `startCalibrate_map`: The result, from the five readings.
* `turned_eq`: The order of the readings is recognised.
* `kx_eq`, `ky_eq`: The scales are found.
* `convert_eq`, `convert_raw`: What the formulas make of a reading.
* `convert_iff`, `inverts_iff`: When that is the point that was touched.
-/

namespace ZeusOS

namespace Calibrate

open Foundation.Axes

/-- A touch panel: the axes along the two directions of the screen, and whether
    their readings are handed over the other way round. -/
structure Panel where
  horizontal : Axis ℚ
  vertical : Axis ℚ
  interchanged : Bool

/-- What the panel reads at a point of the screen. -/
def Panel.raw (panel : Panel) (X Y : ℚ) : ℚ × ℚ :=
  if panel.interchanged then (panel.vertical.read Y, panel.horizontal.read X)
  else (panel.horizontal.read X, panel.vertical.read Y)

def Points.toList (p : Points) : List PointDesc :=
  [p.leftTop, p.rightTop, p.rightBottom, p.leftBottom, p.centre]

/-- At each of these points the reading is what the panel reads there. -/
def Panel.Touched (panel : Panel) (tPoint : Points) (touch : Int → Int → Int × Int) : Prop :=
  ∀ t ∈ tPoint.toList,
    (((touch t.iX t.iY).1 : ℚ), ((touch t.iX t.iY).2 : ℚ)) = panel.raw t.iX t.iY

/-- The point a reading is written to, as it is or the other way round. -/
def reading (interchanged : Bool) (touch : Int → Int → Int × Int) (t : PointDesc) : PointDesc :=
  if interchanged then ⟨(touch t.iX t.iY).2, (touch t.iX t.iY).1⟩
  else ⟨(touch t.iX t.iY).1, (touch t.iX t.iY).2⟩

def Points.map (f : PointDesc → PointDesc) (p : Points) : Points :=
  ⟨f p.leftTop, f p.rightTop, f p.rightBottom, f p.leftBottom, f p.centre⟩

/-- Whether `startCalibrate` takes the readings to be interchanged. -/
def turned (tPoint : Points) (touch : Int → Int → Int × Int) : Bool :=
  let p0 := reading false touch tPoint.leftTop
  let p1 := reading false touch tPoint.rightTop
  decide (abs (p1.iX - p0.iX) < abs (p1.iY - p0.iY))

/-- Where a touch gives its reading at once, the result is computed from all
    five readings, taken the same way round. -/
theorem startCalibrate_map (iXres iYres : Int) (touch : Int → Int → Int × Int) :
    Id.run (startCalibrate iXres iYres touch) =
      { mtCalibrateInfo :=
          calibrateInfo (turned (targets iXres iYres) touch) (targets iXres iYres)
            ((targets iXres iYres).map (reading (turned (targets iXres iYres) touch) touch))
        mHasCalibrated := true } := by
  rcases hturned : turned (targets iXres iYres) touch with _ | _
  · exact congrArg Id.run (if_neg (of_decide_eq_false hturned))
  · exact congrArg Id.run (if_pos (of_decide_eq_true hturned))

theorem mem_toList (p : Points) : p.leftTop ∈ p.toList ∧ p.rightTop ∈ p.toList ∧
    p.rightBottom ∈ p.toList ∧ p.leftBottom ∈ p.toList ∧ p.centre ∈ p.toList := by
  simp only [Points.toList, List.mem_cons, true_or, or_true, and_self]

/-- Taken the way the panel hands them over, the two numbers are the readings of
    the two axes. -/
theorem reading_eq {panel : Panel} {tPoint : Points} {touch : Int → Int → Int × Int}
    (htouch : panel.Touched tPoint touch) {t : PointDesc} (ht : t ∈ tPoint.toList) :
    ((reading panel.interchanged touch t).iX : ℚ) = panel.horizontal.read t.iX ∧
      ((reading panel.interchanged touch t).iY : ℚ) = panel.vertical.read t.iY := by
  have hraw := htouch t ht
  unfold Panel.raw at hraw
  unfold reading
  cases hinter : panel.interchanged with
  | false =>
      rw [hinter, if_neg Bool.false_ne_true, Prod.mk.injEq] at hraw
      exact hraw
  | true =>
      rw [hinter, if_pos rfl, Prod.mk.injEq] at hraw
      exact ⟨hraw.2, hraw.1⟩

theorem abs_pos {X : Int} (h : X ≠ 0) : abs 0 < abs X := by
  unfold abs
  split <;> omega

theorem not_abs_lt_zero (X : Int) : ¬ abs X < abs 0 := by
  unfold abs
  split <;> omega

/-- The two ends of a side are apart. -/
theorem offset_ne {res : Int} (h : res ≠ 100) : ((res - iOffset : Int) : ℚ) ≠ ((iOffset : Int) : ℚ) := by
  intro hcast
  have hint : res - iOffset = iOffset := by exact_mod_cast hcast
  unfold iOffset at hint
  omega

/-- Along the upper edge the panel's first axis moves and its second does not,
    and so it is seen which number is which. -/
theorem turned_eq {panel : Panel} {iXres iYres : Int} {touch : Int → Int → Int × Int}
    (hx : iXres ≠ 100) (htouch : panel.Touched (targets iXres iYres) touch) :
    turned (targets iXres iYres) touch = panel.interchanged := by
  have hleft := reading_eq htouch (mem_toList _).1
  have hright := reading_eq htouch (mem_toList _).2.1
  have hsame : (reading panel.interchanged touch (targets iXres iYres).rightTop).iY
      = (reading panel.interchanged touch (targets iXres iYres).leftTop).iY := by
    have hcast := hright.2.trans hleft.2.symm
    exact_mod_cast hcast
  have hmoves : (reading panel.interchanged touch (targets iXres iYres).rightTop).iX
      - (reading panel.interchanged touch (targets iXres iYres).leftTop).iX ≠ 0 := by
    intro heq
    have hcast := congrArg (Int.cast : Int → ℚ) heq
    rw [Int.cast_sub, hright.1, hleft.1, Int.cast_zero] at hcast
    exact read_sub_read_ne panel.horizontal (offset_ne hx) hcast
  unfold turned
  cases hinter : panel.interchanged with
  | false =>
      rw [hinter] at hsame hmoves
      simp only [hsame, Int.sub_self, decide_eq_false_iff_not]
      exact not_abs_lt_zero _
  | true =>
      rw [hinter] at hsame hmoves
      have hsame : (reading false touch (targets iXres iYres).rightTop).iX
          = (reading false touch (targets iXres iYres).leftTop).iX := hsame
      simp only [hsame, Int.sub_self, decide_eq_true_eq]
      exact abs_pos hmoves

section Scales

variable {iXres iYres : Int} {f : PointDesc → PointDesc} (axis : Axis ℚ) (mInterchangeXY : Bool)

/-- The upper and the lower side give the scale of the first axis. -/
theorem kx_eq (hx : iXres ≠ 100)
    (hf : ∀ t ∈ (targets iXres iYres).toList, ((f t).iX : ℚ) = axis.read t.iX) :
    (calibrateInfo mInterchangeXY (targets iXres iYres) ((targets iXres iYres).map f)).iKx
      = axis.scale := by
  rcases mem_toList (targets iXres iYres) with ⟨hlt, hrt, hrb, hlb, _⟩
  rw [← mean_slope axis (offset_ne hx)]
  simp only [calibrateInfo, Points.sides, Points.map, Int.cast_add, Int.cast_sub, hf _ hlt, hf _ hrt,
    hf _ hrb, hf _ hlb]
  simp only [targets, Int.cast_sub]

/-- The right and the left side give the scale of the second axis. -/
theorem ky_eq (hy : iYres ≠ 100)
    (hf : ∀ t ∈ (targets iXres iYres).toList, ((f t).iY : ℚ) = axis.read t.iY) :
    (calibrateInfo mInterchangeXY (targets iXres iYres) ((targets iXres iYres).map f)).iKy
      = axis.scale := by
  rcases mem_toList (targets iXres iYres) with ⟨hlt, hrt, hrb, hlb, _⟩
  rw [← mean_slope axis (offset_ne hy)]
  simp only [calibrateInfo, Points.sides, Points.map, Int.cast_add, Int.cast_sub, hf _ hlt, hf _ hrt,
    hf _ hrb, hf _ hlb]
  simp only [targets, Int.cast_sub]

end Scales

/-- What `startCalibrate` computes on a panel. The scales are the panel's, and so
    is the first of the two readings of the centre; the second is the first once
    more, and `convert_iff` says when nothing comes of that. -/
structure ComputedOn (panel : Panel) (iXres iYres : Int) (info : CalibrateInfo) : Prop where
  mInterchangeXY : info.mInterchangeXY = panel.interchanged
  iKx : info.iKx = panel.horizontal.scale
  iKy : info.iKy = panel.vertical.scale
  iXLc : (info.iXLc : ℚ) = panel.horizontal.read (targets iXres iYres).centre.iX
  -- The reading on the second axis belongs here.
  iYLc : (info.iYLc : ℚ) = panel.horizontal.read (targets iXres iYres).centre.iX
  iXc : info.iXc = (targets iXres iYres).centre.iX
  iYc : info.iYc = (targets iXres iYres).centre.iY

section Calibration

variable {panel : Panel} {iXres iYres : Int}

theorem startCalibrate_computed {touch : Int → Int → Int × Int} (hx : iXres ≠ 100)
    (hy : iYres ≠ 100) (htouch : panel.Touched (targets iXres iYres) touch) :
    ComputedOn panel iXres iYres (Id.run (startCalibrate iXres iYres touch)).mtCalibrateInfo := by
  rw [startCalibrate_map, turned_eq hx htouch]
  have hcentre := (reading_eq htouch (mem_toList (targets iXres iYres)).2.2.2.2).1
  exact
    { mInterchangeXY := rfl
      iKx := kx_eq _ _ hx fun t ht => (reading_eq htouch ht).1
      iKy := ky_eq _ _ hy fun t ht => (reading_eq htouch ht).2
      iXLc := hcentre
      iYLc := hcentre
      iXc := rfl
      iYc := rfl }

/-- The formulas give the first coordinate back, and take the second along a
    line through the wrong reading. -/
theorem convert_eq {info : CalibrateInfo} (h : ComputedOn panel iXres iYres info) (X Y : ℚ) :
    info.convert (panel.raw X Y) =
      (X, recover panel.vertical.scale (panel.horizontal.read (targets iXres iYres).centre.iX)
        (targets iXres iYres).centre.iY (panel.vertical.read Y)) := by
  have hraw : (if info.mInterchangeXY = true then (panel.raw X Y).swap else panel.raw X Y)
      = (panel.horizontal.read X, panel.vertical.read Y) := by
    rw [h.mInterchangeXY]
    unfold Panel.raw
    cases panel.interchanged <;> rfl
  have hX := (recover_read_iff panel.horizontal _ (targets iXres iYres).centre.iX X).mpr rfl
  unfold CalibrateInfo.convert
  simp only [hraw, h.iKx, h.iKy, h.iXLc, h.iYLc, h.iXc, h.iYc]
  rw [Prod.mk.injEq]
  exact ⟨hX, rfl⟩

/-- So every point comes out shifted in its second coordinate, all of them by the
    same distance. -/
theorem convert_raw {info : CalibrateInfo} (h : ComputedOn panel iXres iYres info) (X Y : ℚ) :
    info.convert (panel.raw X Y) =
      (X, Y + (panel.vertical.read (targets iXres iYres).centre.iY
        - panel.horizontal.read (targets iXres iYres).centre.iX) / panel.vertical.scale) := by
  rw [convert_eq h, recover_read]

/-- No point is shifted if the centre of the screen is read alike on both axes,
    and otherwise every point is. -/
theorem convert_iff {info : CalibrateInfo} (h : ComputedOn panel iXres iYres info) :
    (∀ X Y : ℚ, info.convert (panel.raw X Y) = (X, Y)) ↔
      panel.horizontal.read (targets iXres iYres).centre.iX
        = panel.vertical.read (targets iXres iYres).centre.iY := by
  constructor
  · intro hconvert
    have hpoint := hconvert 0 0
    rw [convert_eq h, Prod.mk.injEq, recover_read_iff] at hpoint
    exact hpoint.2
  · intro heq X Y
    rw [convert_eq h, Prod.mk.injEq, recover_read_iff]
    exact ⟨rfl, heq⟩

/-- On every panel the order of the readings is recognised, and the formulas
    give every point back exactly when the centre of the screen is read alike on
    both axes. -/
theorem inverts_iff {touch : Int → Int → Int × Int} (hx : iXres ≠ 100) (hy : iYres ≠ 100)
    (htouch : panel.Touched (targets iXres iYres) touch) :
    ((Id.run (startCalibrate iXres iYres touch)).mtCalibrateInfo.mInterchangeXY = panel.interchanged ∧
        ∀ X Y : ℚ, (Id.run (startCalibrate iXres iYres touch)).mtCalibrateInfo.convert
          (panel.raw X Y) = (X, Y))
      ↔ panel.horizontal.read (targets iXres iYres).centre.iX
          = panel.vertical.read (targets iXres iYres).centre.iY := by
  have hcomputed := startCalibrate_computed hx hy htouch
  rw [convert_iff hcomputed]
  exact ⟨fun h => h.2, fun h => ⟨hcomputed.mInterchangeXY, h⟩⟩

end Calibration

/-- A panel with its readings interchanged, which reads 490 twice at the centre
    of its screen. -/
def samplePanel : Panel :=
  { horizontal := { scale := 2, offset := 10, scale_ne := two_ne_zero }
    vertical := { scale := 3, offset := 82, scale_ne := three_ne_zero }
    interchanged := true }

theorem samplePanel_touched (tPoint : Points) :
    samplePanel.Touched tPoint (fun iX iY => (3 * iY + 82, 2 * iX + 10)) := by
  intro t _
  simp only [samplePanel, Panel.raw, Axis.read, if_true, Int.cast_add, Int.cast_mul, Int.cast_ofNat]

/-- The centre of the screen that the samples use. -/
theorem sample_centre : (targets 480 272).centre = ⟨240, 136⟩ := rfl

theorem inverts_sample :
    (Id.run (startCalibrate 480 272
        (fun iX iY => (3 * iY + 82, 2 * iX + 10)))).mtCalibrateInfo.mInterchangeXY
        = samplePanel.interchanged ∧
      ∀ X Y : ℚ, (Id.run (startCalibrate 480 272
        (fun iX iY => (3 * iY + 82, 2 * iX + 10)))).mtCalibrateInfo.convert (samplePanel.raw X Y)
        = (X, Y) := by
  refine (inverts_iff (by decide) (by decide) (samplePanel_touched _)).mpr ?_
  rw [sample_centre]
  norm_num [samplePanel, Axis.read]

/-- A panel that reads the points of the screen as they are. -/
def plainPanel : Panel :=
  { horizontal := { scale := 1, offset := 0, scale_ne := one_ne_zero }
    vertical := { scale := 1, offset := 0, scale_ne := one_ne_zero }
    interchanged := false }

/-- On a screen that is not square, even that panel comes out shifted. -/
theorem plain_shifted :
    plainPanel.Touched (targets 480 272) (fun iX iY => (iX, iY)) ∧
      ¬ ∀ X Y : ℚ, (Id.run (startCalibrate 480 272
        (fun iX iY => (iX, iY)))).mtCalibrateInfo.convert (plainPanel.raw X Y) = (X, Y) := by
  have htouch : plainPanel.Touched (targets 480 272) (fun iX iY => (iX, iY)) := by
    intro t _
    simp only [plainPanel, Panel.raw, Axis.read, Bool.false_eq_true, if_false, one_mul, add_zero]
  refine ⟨htouch, fun hconvert => ?_⟩
  have hpoint := hconvert 0 0
  rw [convert_raw (startCalibrate_computed (by decide) (by decide) htouch),
    Prod.mk.injEq, sample_centre] at hpoint
  norm_num [plainPanel, Axis.read] at hpoint

end Calibrate

end ZeusOS
