import ZeusOS.Calibrate.Inversion
import ZeusOS.Calibrate.Sampling

/-!
# A Session of Calibration

The five targets on a live panel: `startCalibrate` with the `showTargetToLCD`
that waits for events.

A target takes as many calls of `readOnce` as it needs and leaves the others to
the next one. So if the calls made while a target is shown bring the panel's
reading there, the whole session has the result of `startCalibrate` on those
readings, and makes no call more.

## Main definitions

* `sampleTarget`: `showTargetToLCD`, on the calls that are still to come.
* `Brings`: Some calls bring the reading of a touch.

## Theorems

* `showTargetToLCD_append`: What comes later is not looked at.
* `startCalibrate_reads`: A session, and the readings it brings.
* `session_computed`: A session on a panel.
-/

namespace ZeusOS

namespace Calibrate

/-- `showTargetToLCD` on the calls of `readOnce` that are still to come. The
    target is shown to the user only. -/
def sampleTarget (iL : Int32 × Int32) (_iX _iY : Int) : StateT (List Read) Option (Int × Int) :=
  fun reads => (showTargetToLCD iL reads).map fun left =>
    ((left.1.1.toInt, left.1.2.toInt), left.2)

/-- A loop that has stopped does not look at what comes later. -/
theorem showTargetToLCD_append {reads rest : List Read} {iL point : Int32 × Int32}
    (h : showTargetToLCD iL reads = some (point, rest)) (more : List Read) :
    showTargetToLCD iL (reads ++ more) = some (point, rest ++ more) := by
  induction reads generalizing iL with
  | nil => simp only [showTargetToLCD, reduceCtorEq] at h
  | cons r reads ih =>
      rw [List.cons_append]
      by_cases hnone : r.iRet ≤ 0
      · rw [loop_nothing reads iL hnone] at h
        rw [loop_nothing _ iL hnone, ih h]
      by_cases hrelease : isRelease r.first = true
      · rw [loop_release reads iL hnone hrelease, Option.some.injEq, Prod.mk.injEq] at h
        rw [loop_release _ iL hnone hrelease, h.1, h.2]
      by_cases hpress : isPress r.first = true
      · rw [loop_press reads iL hnone hpress] at h
        rw [loop_press _ iL hnone hpress, ih h]
      · rw [loop_other reads iL hnone hpress hrelease] at h
        rw [loop_other _ iL hnone hpress hrelease, ih h]

/-- While a target is shown, these calls bring the reading of the touch there. -/
def Brings (iL : Int32 × Int32) (touch : Int → Int → Int × Int) (t : PointDesc)
    (reads : List Read) : Prop :=
  ∃ point, showTargetToLCD iL reads = some (point, []) ∧
    (point.1.toInt, point.2.toInt) = touch t.iX t.iY

theorem sampleTarget_brings {iL : Int32 × Int32} {touch : Int → Int → Int × Int} {t : PointDesc}
    {reads : List Read} (h : Brings iL touch t reads) (more : List Read) :
    sampleTarget iL t.iX t.iY (reads ++ more) = some (touch t.iX t.iY, more) := by
  rcases h with ⟨point, hloop, hpoint⟩
  unfold sampleTarget
  rw [showTargetToLCD_append hloop, Option.map_some, hpoint, List.nil_append]

section Session

variable {iXres iYres : Int} {iL : Int32 × Int32} {touch : Int → Int → Int × Int}
  {held : PointDesc → List Read}

/-- A session in which the calls made at each target bring the reading there has
    the result of these readings. -/
theorem startCalibrate_reads
    (h : ∀ t ∈ (targets iXres iYres).toList, Brings iL touch t (held t)) (more : List Read) :
    startCalibrate iXres iYres (sampleTarget iL)
        (((targets iXres iYres).toList.map held).flatten ++ more) =
      some (Id.run (startCalibrate iXres iYres touch), more) := by
  rcases mem_toList (targets iXres iYres) with ⟨hlt, hrt, hrb, hlb, hcentre⟩
  rw [startCalibrate_map]
  unfold startCalibrate
  simp only [Points.toList, List.map_cons, List.map_nil, List.flatten_cons, List.flatten_nil,
    List.append_assoc, List.nil_append, bind, StateT.bind, sampleTarget_brings (h _ hlt),
    sampleTarget_brings (h _ hrt), Option.bind_some]
  -- The other three are sampled in the branch that the first two lead to.
  cases hturned : turned (targets iXres iYres) touch with
  | false =>
      have hless := of_decide_eq_false hturned
      simp only [reading, Bool.false_eq_true, if_false] at hless
      simp only [if_neg hless, bind, StateT.bind, sampleTarget_brings (h _ hrb),
        sampleTarget_brings (h _ hlb), sampleTarget_brings (h _ hcentre), Option.bind_some]
      rfl
  | true =>
      have hless := of_decide_eq_true hturned
      simp only [reading, Bool.false_eq_true, if_false] at hless
      simp only [if_pos hless, bind, StateT.bind, sampleTarget_brings (h _ hrb),
        sampleTarget_brings (h _ hlb), sampleTarget_brings (h _ hcentre), Option.bind_some]
      rfl

/-- A session on a panel computes what `startCalibrate` computes of its readings,
    and makes no more calls than the five targets take. -/
theorem session_computed {panel : Panel} (hx : iXres ≠ 100) (hy : iYres ≠ 100)
    (htouch : panel.Touched (targets iXres iYres) touch)
    (h : ∀ t ∈ (targets iXres iYres).toList, Brings iL touch t (held t)) (more : List Read) :
    ∃ s, startCalibrate iXres iYres (sampleTarget iL)
        (((targets iXres iYres).toList.map held).flatten ++ more) = some (s, more) ∧
      s.mHasCalibrated = true ∧ ComputedOn panel iXres iYres s.mtCalibrateInfo := by
  refine ⟨_, startCalibrate_reads h more, ?_, startCalibrate_computed hx hy htouch⟩
  rw [startCalibrate_map]

end Session

end Calibrate

end ZeusOS
