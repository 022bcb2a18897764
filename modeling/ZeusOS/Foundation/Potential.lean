import Mathlib.Data.List.Nodup
import ZeusOS.Foundation.Runs

/-!
# Runs that Come to an End

How often a system can do what it does, and whether it gets where it is to get.

A potential is a number that belongs to a state. Some inputs add to it, and
every step may spend of it; where no step spends what the potential does not
have, all that is spent in a run was there at its beginning or has been added
on the way. So a run without additions ends, after at most as many spending
steps as the potential of its first state.

That it ends at the right place is a question of what can still be done. If in
every state that is not final some input has a result and spends, the run goes
on until it is in a final state, whatever came before.

## Main definitions

* `total`: A sum over a list.
* `Amortized`: A potential that pays for what is spent.

## Theorems

* `total_mono`, `total_le`, `total_succ`, `total_update`: Sums.
* `amortized_run`: What a whole run spends.
* `amortized_finishes`: A final state is reached.
-/

namespace Foundation

namespace Potential

open Runs

section Total

variable {α : Type}

/-- The sum of a function over a list. -/
def total (f : α → Nat) : List α → Nat
  | [] => 0
  | a :: l => f a + total f l

theorem total_congr {f g : α → Nat} {l : List α} (h : ∀ a ∈ l, g a = f a) :
    total g l = total f l := by
  induction l with
  | nil => rfl
  | cons a l ih =>
      simp only [total]
      rw [h a List.mem_cons_self, ih fun b hb => h b (List.mem_cons_of_mem _ hb)]

theorem total_mono {f g : α → Nat} {l : List α} (h : ∀ a ∈ l, g a ≤ f a) :
    total g l ≤ total f l := by
  induction l with
  | nil => exact Nat.le_refl _
  | cons a l ih =>
      have hfirst := h a List.mem_cons_self
      have hrest := ih fun b hb => h b (List.mem_cons_of_mem _ hb)
      simp only [total]
      omega

theorem total_le {f : α → Nat} {l : List α} {bound : Nat} (h : ∀ a ∈ l, f a ≤ bound) :
    total f l ≤ bound * l.length := by
  induction l with
  | nil => exact Nat.zero_le _
  | cons a l ih =>
      have hfirst := h a List.mem_cons_self
      have hrest := ih fun b hb => h b (List.mem_cons_of_mem _ hb)
      simp only [total, List.length_cons, Nat.mul_add, Nat.mul_one]
      omega

theorem total_succ (f : α → Nat) (l : List α) :
    total (fun a => f a + 1) l = total f l + l.length := by
  induction l with
  | nil => rfl
  | cons a l ih =>
      simp only [total, List.length_cons, ih]
      omega

/-- What changes in one place changes the sum by what it changes there. -/
theorem total_update {f g : α → Nat} {l : List α} {a : α} (hnodup : l.Nodup) (ha : a ∈ l)
    (h : ∀ b, b ≠ a → g b = f b) : total g l + f a = total f l + g a := by
  induction l with
  | nil => exact absurd ha List.not_mem_nil
  | cons b l ih =>
      rw [List.nodup_cons] at hnodup
      simp only [total]
      by_cases heq : b = a
      · -- The rest does not have it again.
        subst heq
        have hrest : total g l = total f l :=
          total_congr fun c hc => h c fun hcb => hnodup.1 (hcb ▸ hc)
        omega
      · have hrest := ih hnodup.2 ((List.mem_cons.mp ha).resolve_left fun hab => heq hab.symm)
        have hfirst := h b heq
        omega

end Total

variable {σ ι : Type}

/-- Whatever a step spends is taken from the potential, which grows by no more
    than what the input adds. -/
structure Amortized (step : σ → ι → Option σ) (I : σ → Prop) (rank : σ → Nat)
    (adds spends : ι → Nat) : Prop where
  keeps : ∀ s i s', I s → step s i = some s' → I s'
  pays : ∀ s i s', I s → step s i = some s' → rank s' + spends i ≤ rank s + adds i

variable {step : σ → ι → Option σ} {I : σ → Prop} {rank : σ → Nat} {adds spends : ι → Nat}

/-- What a run spends was there before it, or it was added. -/
theorem amortized_run (h : Amortized step I rank adds spends) {s t : σ} {is : List ι} (hs : I s)
    (hrun : run step s is = some t) : rank t + total spends is ≤ rank s + total adds is := by
  induction is generalizing s with
  | nil =>
      rw [run_nil, Option.some.injEq] at hrun
      rw [hrun]
      exact Nat.le_refl _
  | cons i is ih =>
      rw [run_cons, Option.bind_eq_some_iff] at hrun
      rcases hrun with ⟨s', hi, hrest⟩
      have hfirst := h.pays s i s' hs hi
      have hlater := ih (h.keeps s i s' hs hi) hrest
      simp only [total]
      omega

/-- If every state that is not final has a step of a kind that spends and adds
    nothing, such steps lead to a final state. -/
theorem amortized_finishes (h : Amortized step I rank adds spends) {final : σ → Prop}
    {kind : ι → Prop} (hkind : ∀ i, kind i → adds i = 0 ∧ 0 < spends i)
    (hgoes : ∀ s, I s → ¬ final s → ∃ i, kind i ∧ (step s i).isSome = true) {s : σ} (hs : I s) :
    ∃ is t, run step s is = some t ∧ final t ∧ I t ∧ (∀ i ∈ is, kind i) ∧
      is.length ≤ rank s := by
  -- Every step takes at least one from the potential.
  generalize hn : rank s = n
  induction n using Nat.strongRecOn generalizing s with
  | _ n ih =>
      by_cases hfinal : final s
      · exact ⟨[], s, rfl, hfinal, hs, fun _ hmem => absurd hmem List.not_mem_nil, Nat.zero_le _⟩
      · rcases hgoes s hs hfinal with ⟨i, hi, hsome⟩
        rcases Option.isSome_iff_exists.mp hsome with ⟨s', hs'⟩
        have hpays := h.pays s i s' hs hs'
        rcases hkind i hi with ⟨hadds, hspends⟩
        rcases ih (rank s') (by omega) (h.keeps s i s' hs hs') rfl with
          ⟨is, t, hrun, hfin, ht, hall, hlength⟩
        refine ⟨i :: is, t, ?_, hfin, ht, ?_, ?_⟩
        · rw [run_cons, hs', Option.bind_some, hrun]
        · exact List.forall_mem_cons.mpr ⟨hi, hall⟩
        · rw [List.length_cons]
          omega

end Potential

end Foundation
