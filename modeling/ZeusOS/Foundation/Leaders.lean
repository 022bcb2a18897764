import Mathlib.Data.List.Basic

/-!
# The Leaders of Batches

A sequence that comes in batches, seen by somebody who looks only at the first
element of each. The batches may be of any length, and empty ones are not seen
at all. Where the sequence is cut decides who leads, so what is seen depends on
the cuts, unless what matters always leads.

Each leader is kept with its position in the whole sequence, so that two ways
of cutting it can be compared.

## Main definitions

* `leaders`: The first elements of the batches, with their positions.
* `stopAt`: The first element that says to stop, and those before it.

## Theorems

* `stopAt_leaders`: Where a leader stands in the sequence.
* `stopAt_leaders_of_quiet`: What is seen when nothing that matters follows.
-/

namespace Foundation

namespace Leaders

variable {α : Type}

/-- The first elements of the batches, with their positions in the sequence, of
    which the first is at `k`. -/
def leaders : Nat → List (List α) → List (Nat × α)
  | _, [] => []
  | k, [] :: batches => leaders k batches
  | k, (a :: rest) :: batches => (k, a) :: leaders (k + (rest.length + 1)) batches

/-- The position of the first element that says to stop, and the elements that
    come before it. -/
def stopAt (stop : α → Bool) : List (Nat × α) → Option (Nat × List α)
  | [] => none
  | (k, a) :: seen =>
    if stop a then some (k, [])
    else (stopAt stop seen).map fun (r, before) => (r, a :: before)

/-- The leader that says to stop stands in the sequence where it is said to
    stand. -/
theorem stopAt_leaders (stop : α → Bool) (batches : List (List α)) (k r : Nat) (before : List α)
    (h : stopAt stop (leaders k batches) = some (r, before)) :
    k ≤ r ∧ ∃ a, batches.flatten[r - k]? = some a ∧ stop a = true := by
  induction batches generalizing k before with
  | nil => simp only [leaders, stopAt, reduceCtorEq] at h
  | cons batch batches ih =>
      cases batch with
      | nil => exact ih k before h
      | cons a rest =>
          simp only [leaders, stopAt] at h
          by_cases hstop : stop a = true
          · rw [if_pos hstop, Option.some.injEq, Prod.mk.injEq] at h
            rw [← h.1, Nat.sub_self]
            exact ⟨Nat.le_refl _, a, rfl, hstop⟩
          · rw [if_neg hstop, Option.map_eq_some_iff] at h
            rcases h with ⟨⟨r', before'⟩, hrest, heq⟩
            rcases Prod.mk.inj heq with ⟨rfl, _⟩
            rcases ih _ before' hrest with ⟨hle, a', hget, hstop'⟩
            refine ⟨by omega, a', ?_, hstop'⟩
            rw [List.flatten_cons, List.getElem?_append_right (by rw [List.length_cons]; omega), ← hget]
            congr 1
            rw [List.length_cons]
            omega

theorem filter_batch (p : α → Bool) (a : α) (rest later : List α) :
    (a :: (rest ++ later)).filter p = [a].filter p ++ (rest.filter p ++ later.filter p) := by
  rw [← List.filter_append, ← List.filter_append, List.singleton_append]

/-- Where only leaders matter, what is seen is what matters in the sequence
    itself: it is the first stop of all, and everything that matters before
    it. -/
theorem stopAt_leaders_of_quiet (stop matters : α → Bool)
    (hstop : ∀ a, stop a = true → matters a = true) (batches : List (List α)) (k : Nat)
    (hquiet : ∀ batch ∈ batches, ∀ a ∈ batch.tail, matters a = false) :
    (stopAt stop (leaders k batches)).map (fun (r, before) => (r, before.filter matters)) =
      (batches.flatten.findIdx? stop).map
        fun r => (k + r, (batches.flatten.take r).filter matters) := by
  induction batches generalizing k with
  | nil => rfl
  | cons batch batches ih =>
      have hquiet' := fun b hb => hquiet b (List.mem_cons_of_mem _ hb)
      cases batch with
      | nil => exact ih k hquiet'
      | cons a rest =>
          have hrest : ∀ b ∈ rest, matters b = false := hquiet _ List.mem_cons_self
          have hnone : rest.findIdx? stop = none := by
            rw [List.findIdx?_eq_none_iff]
            intro b hb
            by_contra hne
            rw [Bool.not_eq_false] at hne
            exact absurd (hstop b hne) (by rw [hrest b hb]; exact Bool.false_ne_true)
          have hfilter : rest.filter matters = [] := by
            rw [List.filter_eq_nil_iff]
            intro b hb
            rw [hrest b hb]
            exact Bool.false_ne_true
          simp only [leaders, stopAt, List.flatten_cons, List.cons_append, List.findIdx?_cons]
          by_cases hfirst : stop a = true
          · rw [if_pos hfirst, if_pos hfirst]
            rfl
          · -- The leader is kept if it matters, and the others of its batch never are.
            have hkept : ∀ seen : Option (Nat × List α),
                (seen.map fun (r, before) => (r, a :: before)).map
                    (fun (r, before) => (r, before.filter matters)) =
                  (seen.map fun (r, before) => (r, before.filter matters)).map
                    fun (r, kept) => (r, [a].filter matters ++ kept) := by
              intro seen
              rw [Option.map_map, Option.map_map]
              congr 1
              funext ⟨r, before⟩
              simp only [Function.comp_apply, ← List.filter_append, List.singleton_append]
            rw [if_neg hfirst, if_neg hfirst, hkept, ih _ hquiet', List.findIdx?_append, hnone,
              Option.none_or]
            cases batches.flatten.findIdx? stop with
            | none => rfl
            | some i =>
                simp only [Option.map_some, Option.some.injEq, Prod.mk.injEq]
                refine ⟨by omega, ?_⟩
                rw [List.take_succ_cons, Nat.add_comm i, List.take_length_add_append, filter_batch,
                  hfilter, List.nil_append]

end Leaders

end Foundation
