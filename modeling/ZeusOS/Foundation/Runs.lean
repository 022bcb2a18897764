import Mathlib.Data.List.Induction

/-!
# Runs of a State Machine

Feeding a list of inputs to a partial step function, and the two ways a
property can follow such a run.

`Always` speaks about states: the property holds wherever the run gets to.
`Along` speaks about steps: every input that is actually consumed meets a
condition in the state it is consumed in. A system that is correct as long as
its environment behaves is a statement of the first kind under a hypothesis of
the second, and `always_of_along` is the induction that proves one from the
other. A step that has no result ends the run there; nothing is said about
what would have come after it.

`always_iff_along` is the sharp form. When a step outside the condition not
only may but does destroy the property, the condition is not merely enough:
the runs that keep the property are exactly the ones that keep the condition.

## Main definitions

* `run`: The state after a list of inputs, if every step has a result.
* `Always`: A property of every state the run reaches.
* `Along`: A condition on every step the run takes.

## Theorems

* `run_append`: Running one list after another.
* `run_snoc`: Running one more input.
* `along_cons`, `along_snoc`: A condition on the first step and on the rest, or
  on the last and what comes before.
* `along_congr`: Conditions that agree along the run.
* `always_of_along`: A conditional invariant holds along a conforming run.
* `along_of_always`: A condition that follows from the states.
* `always_cons`: A property of the first state and of the rest.
* `always_iff_along`: The condition is exact when breaking it breaks the
  invariant.
* `always_iff_along_of`: The same for a property that is less than the
  invariant.
* `run_invariant`, `run_invariant_mem`: An unconditional invariant holds at the
  end of every run.
-/

namespace Foundation

namespace Runs

variable {σ ι : Type}

/-- Feed the inputs to the step function one after another. -/
def run (step : σ → ι → Option σ) : σ → List ι → Option σ
  | s, [] => some s
  | s, i :: is => (step s i).bind (fun s' => run step s' is)

/-- The property holds of every state reached, the first and the last
    included. -/
def Always (step : σ → ι → Option σ) (P : σ → Prop) (s : σ) (is : List ι) : Prop :=
  ∀ before after t, is = before ++ after → run step s before = some t → P t

/-- Every input is consumed in a state in which it meets the condition. -/
def Along (step : σ → ι → Option σ) (C : σ → ι → Prop) (s : σ) (is : List ι) : Prop :=
  ∀ before i after t, is = before ++ i :: after → run step s before = some t → C t i

@[simp] theorem run_nil (step : σ → ι → Option σ) (s : σ) : run step s [] = some s := rfl

@[simp] theorem run_cons (step : σ → ι → Option σ) (s : σ) (i : ι) (is : List ι) :
    run step s (i :: is) = (step s i).bind (fun s' => run step s' is) := rfl

theorem run_append (step : σ → ι → Option σ) (s : σ) (is js : List ι) :
    run step s (is ++ js) = (run step s is).bind (fun t => run step t js) := by
  induction is generalizing s with
  | nil => rfl
  | cons i is ih =>
      simp only [List.cons_append, run_cons]
      cases hstep : step s i with
      | none => rfl
      | some s' => exact ih s'

-- The form the inductions below use: they take the last input off, because the state in
-- which it is consumed is the one the rest of the run has reached.
theorem run_snoc (step : σ → ι → Option σ) (s : σ) (is : List ι) (i : ι) :
    run step s (is ++ [i]) = (run step s is).bind (fun t => step t i) := by
  rw [run_append]
  congr 1
  funext t
  simp only [run_cons, run_nil, Option.bind_fun_some]

/-- An invariant that every step on one of the inputs preserves holds at the end
    of the run. -/
theorem run_invariant_mem (step : σ → ι → Option σ) (P : σ → Prop) (is : List ι)
    (hstep : ∀ s i s', i ∈ is → P s → step s i = some s' → P s')
    (s t : σ) (hs : P s) (hrun : run step s is = some t) : P t := by
  induction is generalizing s with
  | nil =>
      simp only [run_nil, Option.some.injEq] at hrun
      rwa [← hrun]
  | cons i is ih =>
      simp only [run_cons, Option.bind_eq_some_iff] at hrun
      rcases hrun with ⟨s', hi, hrest⟩
      have hrest' : ∀ s j s', j ∈ is → P s → step s j = some s' → P s' := by
        intro s j s' hj
        exact hstep s j s' (List.mem_cons_of_mem _ hj)
      exact ih hrest' s' (hstep s i s' List.mem_cons_self hs hi) hrest

/-- An invariant that every step preserves holds at the end of every run. -/
theorem run_invariant (step : σ → ι → Option σ) (P : σ → Prop)
    (hstep : ∀ s i s', P s → step s i = some s' → P s')
    (s t : σ) (is : List ι) (hs : P s) (hrun : run step s is = some t) : P t :=
  run_invariant_mem step P is (fun s i s' _ => hstep s i s') s t hs hrun

-- A run without inputs takes no step, so any condition holds along it.
theorem along_nil (step : σ → ι → Option σ) (C : σ → ι → Prop) (s : σ) : Along step C s [] := by
  intro before i after t heq
  exact absurd heq.symm (List.append_ne_nil_of_right_ne_nil _ (List.cons_ne_nil _ _))

/-- A condition along a run is one on its first step and along what follows. -/
theorem along_cons (step : σ → ι → Option σ) (C : σ → ι → Prop) (s : σ) (i : ι) (is : List ι) :
    Along step C s (i :: is) ↔ C s i ∧ ∀ s', step s i = some s' → Along step C s' is := by
  constructor
  · intro h
    -- The first step is taken in the first state, and a later one is a later one of the rest.
    refine ⟨h [] i is s rfl rfl, ?_⟩
    intro s' hi before j after t heq hrun
    refine h (i :: before) j after t ?_ ?_
    · rw [heq, List.cons_append]
    · rw [run_cons, hi, Option.bind_some, hrun]
  · rintro ⟨hfirst, hrest⟩ before j after t heq hrun
    -- Either the step is the first one, or it lies in the rest of the run.
    cases before with
    | nil =>
        rcases List.cons.inj heq with ⟨rfl, _⟩
        rw [run_nil, Option.some.injEq] at hrun
        rw [← hrun]
        exact hfirst
    | cons i' before =>
        rcases List.cons.inj heq with ⟨rfl, heq'⟩
        rw [run_cons, Option.bind_eq_some_iff] at hrun
        rcases hrun with ⟨s', hi, hrun'⟩
        exact hrest s' hi before j after t heq' hrun'

/-- Two conditions that agree wherever the run gets to hold along it together. -/
theorem along_congr {step : σ → ι → Option σ} {C D : σ → ι → Prop} {s : σ} {is : List ι}
    (h : ∀ before i after t, is = before ++ i :: after → run step s before = some t →
      (C t i ↔ D t i)) : Along step C s is ↔ Along step D s is := by
  constructor
  · intro hC before i after t heq hrun
    exact (h before i after t heq hrun).mp (hC before i after t heq hrun)
  · intro hD before i after t heq hrun
    exact (h before i after t heq hrun).mpr (hD before i after t heq hrun)

/-- A condition along a run can be checked by taking the run. -/
instance decidableAlong (step : σ → ι → Option σ) (C : σ → ι → Prop) [∀ s i, Decidable (C s i)] :
    (s : σ) → (is : List ι) → Decidable (Along step C s is)
  | s, [] => .isTrue (along_nil step C s)
  | s, i :: is =>
    -- Where the step has no result, the condition on it is all there is to check.
    match hi : step s i with
    | none => decidable_of_iff (C s i) (by simp only [along_cons, hi, reduceCtorEq, false_implies,
        implies_true, and_true])
    | some s' =>
      have := decidableAlong step C s' is
      decidable_of_iff (C s i ∧ Along step C s' is) (by
        simp only [along_cons, hi, Option.some.injEq, forall_eq'])

/-- A conditional invariant holds in every state of a run whose steps meet the
    condition. -/
theorem always_of_along (step : σ → ι → Option σ) (P : σ → Prop) (C : σ → ι → Prop)
    (hstep : ∀ s i s', P s → C s i → step s i = some s' → P s')
    (s : σ) (is : List ι) (hs : P s) (hC : Along step C s is) : Always step P s is := by
  intro before
  -- The induction is on the inputs consumed so far, last one first.
  induction before using List.reverseRecOn with
  | nil =>
      intro after t _ hrun
      simp only [run_nil, Option.some.injEq] at hrun
      rwa [← hrun]
  | append_singleton before i ih =>
      intro after t heq hrun
      rw [run_snoc, Option.bind_eq_some_iff] at hrun
      rcases hrun with ⟨u, hu, hi⟩
      have heq' : is = before ++ i :: after := by
        rw [heq, List.append_assoc, List.singleton_append]
      exact hstep u i t (ih (i :: after) u heq' hu) (hC before i after u heq' hu) hi

/-- What a property of the states has for a consequence is a condition met along
    the run. -/
theorem along_of_always {step : σ → ι → Option σ} {P : σ → Prop} {R : σ → ι → Prop} {s : σ}
    {is : List ι} (hR : ∀ t i, P t → R t i) (h : Always step P s is) : Along step R s is := by
  intro before i after t heq hrun
  exact hR t i (h before (i :: after) t heq hrun)

/-- A property of every state is one of the first state and of every state from
    the next one on. -/
theorem always_cons (step : σ → ι → Option σ) (P : σ → Prop) (s : σ) (i : ι) (is : List ι) :
    Always step P s (i :: is) ↔ P s ∧ ∀ s', step s i = some s' → Always step P s' is := by
  constructor
  · intro h
    refine ⟨h [] (i :: is) s rfl rfl, ?_⟩
    intro s' hi before after t heq hrun
    refine h (i :: before) after t ?_ ?_
    · rw [heq, List.cons_append]
    · rw [run_cons, hi, Option.bind_some, hrun]
  · rintro ⟨hfirst, hrest⟩ before after t heq hrun
    -- The state is the first one, or a state of the rest of the run.
    cases before with
    | nil =>
        rw [run_nil, Option.some.injEq] at hrun
        rw [← hrun]
        exact hfirst
    | cons i' before =>
        rcases List.cons.inj heq with ⟨rfl, heq'⟩
        rw [run_cons, Option.bind_eq_some_iff] at hrun
        rcases hrun with ⟨s', hi, hrun'⟩
        exact hrest s' hi before after t heq' hrun'

/-- What is asked of every state may be less than what the steps need and keep.
    If a step outside the condition always destroys it, the runs that keep it
    are exactly those that keep the condition. -/
theorem always_iff_along_of (step : σ → ι → Option σ) (P Q : σ → Prop) (C : σ → ι → Prop)
    (hPQ : ∀ s, P s → Q s)
    (hstep : ∀ s i s', P s → C s i → step s i = some s' → P s')
    (hbreak : ∀ s i, P s → ¬ C s i → ∃ s', step s i = some s' ∧ ¬ Q s')
    (s : σ) (is : List ι) (hs : P s) : Always step Q s is ↔ Along step C s is := by
  constructor
  · intro h
    -- The first step meets the condition, or it would destroy the property at once; so the
    -- next state is again one the steps can start from.
    induction is generalizing s with
    | nil => exact along_nil step C s
    | cons i is ih =>
        rw [always_cons] at h
        rw [along_cons]
        have hC : C s i := by
          by_contra hC
          rcases hbreak s i hs hC with ⟨s', hi, hQ⟩
          exact hQ (h.2 s' hi [] is s' rfl rfl)
        exact ⟨hC, fun s' hi => ih s' (hstep s i s' hs hC hi) (h.2 s' hi)⟩
  · intro h before after t heq hrun
    exact hPQ t (always_of_along step P C hstep s is hs h before after t heq hrun)

/-- When a step outside the condition has a result and that result lacks the
    property, the runs that keep the property are exactly those that keep the
    condition. -/
theorem always_iff_along (step : σ → ι → Option σ) (P : σ → Prop) (C : σ → ι → Prop)
    (hstep : ∀ s i s', P s → C s i → step s i = some s' → P s')
    (hbreak : ∀ s i, P s → ¬ C s i → ∃ s', step s i = some s' ∧ ¬ P s')
    (s : σ) (is : List ι) (hs : P s) : Always step P s is ↔ Along step C s is :=
  always_iff_along_of step P P C (fun _ hP => hP) hstep hbreak s is hs

end Runs

end Foundation
