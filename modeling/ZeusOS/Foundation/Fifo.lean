import Mathlib.Data.List.Basic

/-!
# First In, First Out

The books of a queue. Whatever has come in has gone out, in the order it came,
or is still inside, in that order, too. One equation says this, and it is kept
by everything a queue does: an item joins at the end, the first item leaves.
That nothing is lost, repeated or overtaken is what the equation means for the
items that are out.

The items can be anything, and what is inside need not be one list in memory;
a line of several stages, each a queue, is a queue.

## Main definitions

* `Conserved`: The equation.

## Theorems

* `conserved_push`, `conserved_pop`: Joining and leaving.
* `conserved_filter`: The items of one kind.
* `prefix_of_conserved`, `output_of_empty`: What is out.
* `not_output`: What never came in never goes out.
-/

namespace Foundation

namespace Fifo

variable {α : Type}

/-- What has come in is what has gone out, followed by what is inside. -/
def Conserved (input output inside : List α) : Prop := input = output ++ inside

theorem conserved_nil : Conserved ([] : List α) [] [] := rfl

/-- Items join at the end. -/
theorem conserved_push {input output inside : List α} (h : Conserved input output inside)
    (items : List α) : Conserved (input ++ items) output (inside ++ items) := by
  unfold Conserved at *
  rw [h, List.append_assoc]

/-- The first item leaves. -/
theorem conserved_pop {input output inside : List α} {a : α}
    (h : Conserved input output (a :: inside)) : Conserved input (output ++ [a]) inside := by
  unfold Conserved at *
  rw [h, List.append_assoc, List.singleton_append]

/-- The items of one kind are conserved, whatever the others do. -/
theorem conserved_filter {input output inside : List α} (h : Conserved input output inside)
    (p : α → Bool) : Conserved (input.filter p) (output.filter p) (inside.filter p) := by
  unfold Conserved at *
  rw [h, List.filter_append]

theorem prefix_of_conserved {input output inside : List α} (h : Conserved input output inside) :
    output <+: input := by
  rw [h]
  exact List.prefix_append _ _

theorem output_of_empty {input output : List α} (h : Conserved input output []) :
    output = input := by
  rw [h, List.append_nil]

theorem not_output {input output inside : List α} (h : Conserved input output inside) {a : α}
    (ha : a ∉ input) : a ∉ output := by
  intro hout
  apply ha
  rw [h]
  exact List.mem_append_left _ hout

end Fifo

end Foundation
