import Mathlib.Data.Rat.Cast.Defs
import ZeusOS.Input.EventDevice

/-!
# Calibration

`Calibrate.cpp`: five targets are shown, one after another, and from where the
panel is pressed at each the numbers are computed that turn a reading of the
panel into a point of the screen.

`showTargetToLCD` waits for a press and a release. It is given what the calls
of `readOnce` bring from then on, and leaves those it does not make. The two
coordinates it is handed by reference are what it starts from, since it may
return without having set them. The circle it draws is left out.

`startCalibrate` takes `showTargetToLCD` as a parameter, in any monad, and so
it is one definition whether the points come from batches of events or are the
readings of a panel that is only described. Numbers of type `int` are integers
and those of type `double` are rational numbers; the file that the result is
written to is left out.

## Main definitions

* `Read`: What one call of `readOnce` brings.
* `showTargetToLCD`: The loop of `showTargetToLCD`.
* `PointDesc`, `Points`, `Points.sides`: The five points and their sides.
* `CalibrateInfo`, `State`: The result.
* `targets`: Where the targets are shown.
* `calibrateInfo`, `startCalibrate`: How it is computed.
* `CalibrateInfo.convert`: What it is for.
-/

namespace ZeusOS

namespace Calibrate

open Input

/-- What a call of `readOnce` returned, and the array after it. -/
structure Read where
  iRet : Int
  cookEvent : List CookEvent
  length_eq : cookEvent.length = 128
  iRet_le : iRet ≤ 128

/-- The events a call brought. -/
def Read.batch (r : Read) : List CookEvent := r.cookEvent.take r.iRet.toNat

theorem Read.cookEvent_ne (r : Read) : r.cookEvent ≠ [] := by
  intro hnil
  have hlen := r.length_eq
  rw [hnil, List.length_nil] at hlen
  omega

/-- `*cookEvent`. -/
def Read.first (r : Read) : CookEvent := r.cookEvent.head r.cookEvent_ne

/-- The loop of `showTargetToLCD`: the point it leaves and the calls it has not
    made, or nothing, if it waits for more. -/
def showTargetToLCD : Int32 × Int32 → List Read → Option ((Int32 × Int32) × List Read)
  | _, [] => none
  | iL, r :: reads =>
    if r.iRet ≤ 0 then showTargetToLCD iL reads
    else if r.first.iType = touchscreen then
      if r.first.iPressure = 1 then showTargetToLCD (r.first.iX, r.first.iY) reads
      else some (iL, reads)
    else showTargetToLCD iL reads

/-- `struct PointDesc`. -/
structure PointDesc where
  iX : Int
  iY : Int
  deriving DecidableEq, Repr

/-- The entries of `tPoint`, or of `tPoint_L`, in their order. -/
structure Points where
  leftTop : PointDesc
  rightTop : PointDesc
  rightBottom : PointDesc
  leftBottom : PointDesc
  centre : PointDesc
  deriving DecidableEq, Repr

/-- The entries of `aS`, or of `aS_L`, in their order. -/
structure Sides where
  top : Int
  right : Int
  bottom : Int
  left : Int
  deriving DecidableEq, Repr

def Points.sides (p : Points) : Sides :=
  { top := p.rightTop.iX - p.leftTop.iX
    right := p.rightBottom.iY - p.rightTop.iY
    bottom := p.rightBottom.iX - p.leftBottom.iX
    left := p.leftBottom.iY - p.leftTop.iY }

/-- `struct CalibrateInfo`. -/
structure CalibrateInfo where
  mInterchangeXY : Bool
  iKx : ℚ
  iKy : ℚ
  iXLc : Int
  iYLc : Int
  iXc : Int
  iYc : Int
  deriving DecidableEq, Repr

/-- The fields of the class. -/
structure State where
  mtCalibrateInfo : CalibrateInfo
  mHasCalibrated : Bool
  deriving DecidableEq, Repr

/-- The macro `ABS`. -/
def abs (X : Int) : Int := if X < 0 then -1 * X else X

def iOffset : Int := 50

/-- Where the targets are shown. -/
def targets (iXres iYres : Int) : Points :=
  { leftTop := ⟨iOffset, iOffset⟩
    rightTop := ⟨iXres - iOffset, iOffset⟩
    rightBottom := ⟨iXres - iOffset, iYres - iOffset⟩
    leftBottom := ⟨iOffset, iYres - iOffset⟩
    centre := ⟨iXres >>> (1 : Nat), iYres >>> (1 : Nat)⟩ }

/-- The second half of `startCalibrate`, from the sides on. -/
def calibrateInfo (mInterchangeXY : Bool) (tPoint tPoint_L : Points) : CalibrateInfo :=
  let aS_L := tPoint_L.sides
  let aS := tPoint.sides
  { mInterchangeXY
    iKx := ((aS_L.top + aS_L.bottom : Int) : ℚ) / 2 / (aS.top : ℚ)
    iKy := ((aS_L.right + aS_L.left : Int) : ℚ) / 2 / (aS.right : ℚ)
    iXLc := tPoint_L.centre.iX
    -- The source has `iX` here, too.
    iYLc := tPoint_L.centre.iX
    iXc := tPoint.centre.iX
    iYc := tPoint.centre.iY }

/-- `startCalibrate`, on a screen of this resolution. -/
def startCalibrate {m : Type → Type} [Monad m] (iXres iYres : Int)
    (showTargetToLCD : Int → Int → m (Int × Int)) : m State := do
  let tPoint := targets iXres iYres
  let (iXL0, iYL0) ← showTargetToLCD tPoint.leftTop.iX tPoint.leftTop.iY
  let (iXL1, iYL1) ← showTargetToLCD tPoint.rightTop.iX tPoint.rightTop.iY
  if abs (iXL1 - iXL0) < abs (iYL1 - iYL0) then
    -- The first two are exchanged afterwards, the others are sampled the other way round.
    let (iYL2, iXL2) ← showTargetToLCD tPoint.rightBottom.iX tPoint.rightBottom.iY
    let (iYL3, iXL3) ← showTargetToLCD tPoint.leftBottom.iX tPoint.leftBottom.iY
    let (iYL4, iXL4) ← showTargetToLCD tPoint.centre.iX tPoint.centre.iY
    let tPoint_L : Points :=
      ⟨⟨iYL0, iXL0⟩, ⟨iYL1, iXL1⟩, ⟨iXL2, iYL2⟩, ⟨iXL3, iYL3⟩, ⟨iXL4, iYL4⟩⟩
    return { mtCalibrateInfo := calibrateInfo true tPoint tPoint_L, mHasCalibrated := true }
  else
    let (iXL2, iYL2) ← showTargetToLCD tPoint.rightBottom.iX tPoint.rightBottom.iY
    let (iXL3, iYL3) ← showTargetToLCD tPoint.leftBottom.iX tPoint.leftBottom.iY
    let (iXL4, iYL4) ← showTargetToLCD tPoint.centre.iX tPoint.centre.iY
    let tPoint_L : Points :=
      ⟨⟨iXL0, iYL0⟩, ⟨iXL1, iYL1⟩, ⟨iXL2, iYL2⟩, ⟨iXL3, iYL3⟩, ⟨iXL4, iYL4⟩⟩
    return { mtCalibrateInfo := calibrateInfo false tPoint tPoint_L, mHasCalibrated := true }

/-- The formula at `struct CalibrateInfo`, for the panel's own coordinates. -/
def CalibrateInfo.convert (info : CalibrateInfo) (raw : ℚ × ℚ) : ℚ × ℚ :=
  let (XL, YL) := if info.mInterchangeXY then raw.swap else raw
  ((XL - info.iXLc) / info.iKx + info.iXc, (YL - info.iYLc) / info.iKy + info.iYc)

end Calibrate

end ZeusOS
