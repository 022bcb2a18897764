import Mathlib.Tactic.FieldSimp
import Mathlib.Tactic.Ring

/-!
# Linear Axes

An instrument that reads a quantity on a linear scale, and what it takes to
undo it.

The scale is found from the readings at two places, and from a reading at a
third one everything else follows: `recover` is the line through that reading.
It gives back the true quantity exactly when the reading it was given is the
instrument's own, and otherwise it is off by the same amount everywhere, as
`recover_read` says.

## Main definitions

* `Axis`: An instrument with a scale, which is not zero, and an offset.
* `Axis.read`: What it reads.
* `recover`: The quantity a reading stands for, given a scale and one reading
  that is known.

## Theorems

* `read_sub_read`: The difference of two readings.
* `mean_slope`: The scale, as the mean of two sides over their length.
* `recover_read`: What a wrong reading at the known place does.
* `recover_read_iff`: When nothing is wrong.
-/

namespace Foundation

namespace Axes

variable {K : Type} [Field K]

/-- An instrument that reads on a linear scale. -/
structure Axis (K : Type) [Field K] where
  scale : K
  offset : K
  scale_ne : scale ≠ 0

/-- What the instrument reads. -/
def Axis.read (a : Axis K) (x : K) : K := a.scale * x + a.offset

/-- The quantity a reading stands for, on a scale `k` on which `centre` is read
    as `known`. -/
def recover (k known centre reading : K) : K := (reading - known) / k + centre

theorem read_sub_read (a : Axis K) (x y : K) : a.read x - a.read y = a.scale * (x - y) := by
  unfold Axis.read
  ring

/-- Two places that differ are read differently. -/
theorem read_sub_read_ne (a : Axis K) {x y : K} (h : x ≠ y) : a.read x - a.read y ≠ 0 := by
  rw [read_sub_read]
  exact mul_ne_zero a.scale_ne (sub_ne_zero.mpr h)

/-- The scale is the mean of two sides of the same length, over that length. -/
theorem mean_slope [NeZero (2 : K)] (a : Axis K) {x y : K} (h : x ≠ y) :
    (a.read x - a.read y + (a.read x - a.read y)) / 2 / (x - y) = a.scale := by
  have hxy : x - y ≠ 0 := sub_ne_zero.mpr h
  have htwo : (2 : K) ≠ 0 := NeZero.ne 2
  rw [read_sub_read]
  field_simp
  ring

/-- What is recovered is off by what the known reading is off. -/
theorem recover_read (a : Axis K) (known centre x : K) :
    recover a.scale known centre (a.read x) = x + (a.read centre - known) / a.scale := by
  have hscale := a.scale_ne
  unfold recover Axis.read
  field_simp
  ring

theorem recover_read_iff (a : Axis K) (known centre x : K) :
    recover a.scale known centre (a.read x) = x ↔ known = a.read centre := by
  rw [recover_read, add_eq_left, div_eq_zero_iff, sub_eq_zero]
  constructor
  · rintro (heq | hzero)
    · exact heq.symm
    · exact absurd hzero a.scale_ne
  · exact fun heq => Or.inl heq.symm

end Axes

end Foundation
