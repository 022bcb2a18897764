import Mathlib.Data.List.TakeDrop

/-!
# Footprints

How far a partial function looks into a list. A function that is handed the
rest of a buffer sees more than it was meant to, and what it sees can only be
told from what it does. A footprint is a list of lengths, one for each read
from the front, such that the function would do the same on any cut that leaves
the reads whole, and has a result only if none of them goes past the end.

Footprints follow the way a function is put together: one part after another,
the second one depending on the result of the first.

## Main definitions

* `Footprint`: The reads a function makes of a list.

## Theorems

* `footprint_const`: A function that does not look.
* `footprint_bind`: One function after another.
* `footprint_then`, `footprint_map`: A result that is worked on further.
* `footprint_ite`: A choice that does not depend on the list.
* `footprint_drop`: A function that starts further on.
-/

namespace Foundation

variable {α β γ : Type}

/-- Reads from the front of a list, by their lengths. -/
structure Footprint (f : List α → Option β) (l : List α) (reads : List Nat) : Prop where
  enough : ∀ k, (∀ n ∈ reads, n ≤ k) → f (l.take k) = f l
  made : ∀ b, f l = some b → ∀ n ∈ reads, n ≤ l.length

namespace Footprint

theorem footprint_const (b : Option β) (l : List α) : Footprint (fun _ => b) l [] :=
  ⟨fun _ _ => rfl, fun _ _ _ hn => absurd hn List.not_mem_nil⟩

/-- Where there is no result, no list is wrong. -/
theorem footprint_none (l : List α) (reads : List Nat) :
    Footprint (fun _ => (none : Option β)) l reads :=
  ⟨fun _ _ => rfl, fun _ hb => absurd hb.symm (Option.some_ne_none _)⟩

/-- One function after another makes the reads of both, the second one's only
    if the first has a result. -/
theorem footprint_bind {f : List α → Option β} {g : β → List α → Option γ} {l : List α}
    {reads : List Nat} {reads' : β → List Nat} (hf : Footprint f l reads)
    (hg : ∀ b, f l = some b → Footprint (g b) l (reads' b)) :
    Footprint (fun l => (f l).bind fun b => g b l) l (reads ++ (f l).elim [] reads') := by
  constructor
  · intro k hk
    rw [hf.enough k fun n hn => hk n (List.mem_append_left _ hn)]
    cases hb : f l with
    | none => rfl
    | some b =>
        rw [Option.bind_some, Option.bind_some]
        refine (hg b hb).enough k fun n hn => hk n (List.mem_append_right _ ?_)
        rw [hb]
        exact hn
  · intro c hc n hn
    simp only [Option.bind_eq_some_iff] at hc
    rcases hc with ⟨b, hb, hc⟩
    rw [hb] at hn
    rcases List.mem_append.mp hn with hn | hn
    · exact hf.made b hb n hn
    · exact (hg b hb).made c hc n hn

/-- What is done with the result alone adds no reads. -/
theorem footprint_then {f : List α → Option β} {l : List α} {reads : List Nat}
    (hf : Footprint f l reads) (g : β → Option γ) :
    Footprint (fun l => (f l).bind g) l reads := by
  constructor
  · intro k hk
    rw [hf.enough k hk]
  · intro c hc
    rw [Option.bind_eq_some_iff] at hc
    rcases hc with ⟨b, hb, _⟩
    exact hf.made b hb

theorem footprint_map {f : List α → Option β} {l : List α} {reads : List Nat}
    (hf : Footprint f l reads) (g : β → γ) : Footprint (fun l => (f l).map g) l reads := by
  simp only [Option.map_eq_bind]
  exact footprint_then hf (some ∘ g)

theorem footprint_ite {p : Prop} [Decidable p] {f g : List α → Option β} {l : List α}
    {reads reads' : List Nat} (hf : p → Footprint f l reads) (hg : ¬ p → Footprint g l reads') :
    Footprint (fun l => if p then f l else g l) l (if p then reads else reads') := by
  by_cases hp : p
  · simp only [if_pos hp]
    exact hf hp
  · simp only [if_neg hp]
    exact hg hp

/-- A function that is handed the rest from some place on reads as much further. -/
theorem footprint_drop {f : List α → Option β} {l : List α} {reads : List Nat} (n : Nat)
    (hf : Footprint f (l.drop n) reads) (hpos : ∀ m ∈ reads, 0 < m) :
    Footprint (fun l => f (l.drop n)) l (reads.map (n + ·)) := by
  constructor
  · intro k hk
    rw [List.drop_take]
    refine hf.enough (k - n) fun m hm => ?_
    have := hk _ (List.mem_map_of_mem hm)
    omega
  · intro b hb m hm
    rcases List.mem_map.mp hm with ⟨r, hr, rfl⟩
    have hmade := hf.made b hb r hr
    have := hpos r hr
    rw [List.length_drop] at hmade
    omega

end Footprint

end Foundation
