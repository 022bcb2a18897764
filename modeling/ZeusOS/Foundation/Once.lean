import Mathlib.Data.List.FinRange
import Mathlib.Logic.Function.Basic
import ZeusOS.Foundation.Potential

/-!
# Objects Made Once

Objects that are made when somebody first asks for them, by any number of
threads: each object has a pointer, which is null at first, and a lock. Whoever
asks looks at the pointer, and only if it is null takes the lock, looks again,
makes the object if there is still none, and gives the lock back. At last the
pointer is read once more, and that is the answer.

The accesses of the threads take turns in any order. An object that is being
made is not yet in the pointer, and what is in the pointer stays there. So the
second look, under the lock, decides who makes it, and everybody else finds it.

No thread ever has two locks, so the one that holds a lock is never held up by
another, and the calls come to an end.

## Main definitions

* `Place`, `State`, `Act`, `step`: The threads in their calls.
* `Settled`: An object is not made, being made, or there.
* `Place.distance`: How far a call is from its end.

## Theorems

* `step_sound`: What a step keeps.
* `step_nearer`, `step_goes`: A step spends, and there is one to be taken.
* `once`: Every object is made once and everybody gets it, in every run.
* `calls_finish`: Calls come to an end.
-/

namespace Foundation

namespace Once

open Runs Potential

variable {ι κ γ ω : Type} [DecidableEq ι] [DecidableEq κ] {make : κ → γ → ω}

/-- Where a thread is in a call for some object. -/
inductive Place (κ ω : Type) where
  | outside
  /-- The pointer was null. The thread waits for the lock. -/
  | waiting (k : κ)
  /-- It has the lock, and has not looked again. -/
  | locked (k : κ)
  /-- There was still none. Memory has been found and the constructor runs. -/
  | making (k : κ) (o : ω)
  /-- The object is there, and the lock has not been given back. -/
  | leaving (k : κ)
  /-- The pointer is read once more. -/
  | returning (k : κ)

/-- Whose lock a thread has. -/
def Place.holds : Place κ ω → Option κ
  | locked k => some k
  | making k _ => some k
  | leaving k => some k
  | _ => none

/-- Whether the thread has an object in the making. -/
def Place.makes : Place κ ω → Bool
  | making _ _ => true
  | _ => false

/-- The pointers, the locks and the threads; besides, what has been made and
    what the calls have returned. -/
structure State (ι κ ω : Type) where
  object : κ → Option ω
  lock : κ → Option ι
  place : ι → Place κ ω
  made : κ → List ω
  got : List (κ × Option ω)

/-- Nobody has asked for anything. -/
def State.start (ι κ ω : Type) : State ι κ ω :=
  { object := fun _ => none
    lock := fun _ => none
    place := fun _ => .outside
    made := fun _ => []
    got := [] }

/-- The accesses of a thread, in the order of a call. -/
inductive Act (ι κ γ : Type) where
  /-- A call begins with a look at the pointer. -/
  | look (t : ι) (k : κ)
  | acquire (t : ι)
  /-- The second look, and what the constructor is given if it is needed. -/
  | again (t : ι) (g : γ)
  /-- The constructor has returned, and the pointer is set. -/
  | publish (t : ι)
  | unlock (t : ι)
  /-- The pointer is read, and the call returns. -/
  | back (t : ι)

/-- One access. What a constructor makes depends on the object and on what it
    is given. -/
def step (make : κ → γ → ω) (s : State ι κ ω) : Act ι κ γ → Option (State ι κ ω)
  | .look t k =>
    match s.place t with
    | .outside =>
      some { s with
        place := Function.update s.place t
          (if (s.object k).isNone then .waiting k else .returning k) }
    | _ => none
  | .acquire t =>
    match s.place t with
    | .waiting k =>
      if s.lock k = none then
        some { s with
          place := Function.update s.place t (.locked k)
          lock := Function.update s.lock k (some t) }
      else none
    | _ => none
  | .again t g =>
    match s.place t with
    | .locked k =>
      if (s.object k).isNone then
        some { s with
          place := Function.update s.place t (.making k (make k g))
          made := Function.update s.made k (s.made k ++ [make k g]) }
      else some { s with place := Function.update s.place t (.leaving k) }
    | _ => none
  | .publish t =>
    match s.place t with
    | .making k o =>
      some { s with
        place := Function.update s.place t (.leaving k)
        object := Function.update s.object k (some o) }
    | _ => none
  | .unlock t =>
    match s.place t with
    | .leaving k =>
      some { s with
        place := Function.update s.place t (.returning k)
        lock := Function.update s.lock k none }
    | _ => none
  | .back t =>
    match s.place t with
    | .returning k =>
      some { s with
        place := Function.update s.place t .outside
        got := s.got ++ [(k, s.object k)] }
    | _ => none

/-- Whoever has this object in the making. -/
def State.Making (s : State ι κ ω) (k : κ) (t : ι) (o : ω) : Prop := s.place t = .making k o

/-- An object has not been asked for in earnest, or somebody is making it, or it
    is there. -/
inductive Settled (s : State ι κ ω) (k : κ) : Prop
  | unmade (hobject : s.object k = none) (hmade : s.made k = [])
      (hnobody : ∀ t o, ¬ s.Making k t o)
  | coming (t : ι) (o : ω) (hobject : s.object k = none) (hmade : s.made k = [o])
      (hmaking : s.Making k t o)
  | there (o : ω) (hobject : s.object k = some o) (hmade : s.made k = [o])
      (hnobody : ∀ t o, ¬ s.Making k t o)

/-- What holds in every state. -/
structure Sound (make : κ → γ → ω) (s : State ι κ ω) : Prop where
  owner : ∀ k t, s.lock k = some t ↔ (s.place t).holds = some k
  settled : ∀ k, Settled s k
  passed : ∀ k t, s.place t = .leaving k ∨ s.place t = .returning k → s.object k ≠ none
  answers : ∀ k r, (k, r) ∈ s.got → ∃ o, r = some o ∧ s.object k = some o
  built : ∀ k, ∀ o ∈ s.made k, ∃ g, o = make k g

omit [DecidableEq ι] [DecidableEq κ] in
theorem sound_start : Sound make (State.start ι κ ω) := by
  refine ⟨fun k t => iff_of_false ?_ ?_, fun k => .unmade rfl rfl fun t o h => ?_, ?_, ?_, ?_⟩
  · intro h
    cases h
  · intro h
    cases h
  · cases h
  · rintro k t (h | h)
    · cases h
    · cases h
  · intro k r h
    exact absurd h List.not_mem_nil
  · intro k o h
    exact absurd h List.not_mem_nil

variable {s s' : State ι κ ω} {t : ι} {k : κ} {p : Place κ ω}

/-- What a step can have done. -/
inductive Stepped (make : κ → γ → ω) (s : State ι κ ω) (t : ι) : State ι κ ω → Prop
  | looked (k : κ) (hplace : s.place t = .outside) (hobject : s.object k = none) :
      Stepped make s t { s with place := Function.update s.place t (.waiting k) }
  | found (k : κ) (hplace : s.place t = .outside) (hobject : s.object k ≠ none) :
      Stepped make s t { s with place := Function.update s.place t (.returning k) }
  | acquired (k : κ) (hplace : s.place t = .waiting k) (hfree : s.lock k = none) :
      Stepped make s t { s with
        place := Function.update s.place t (.locked k)
        lock := Function.update s.lock k (some t) }
  | began (k : κ) (g : γ) (hplace : s.place t = .locked k) (hobject : s.object k = none) :
      Stepped make s t { s with
        place := Function.update s.place t (.making k (make k g))
        made := Function.update s.made k (s.made k ++ [make k g]) }
  | spared (k : κ) (hplace : s.place t = .locked k) (hobject : s.object k ≠ none) :
      Stepped make s t { s with place := Function.update s.place t (.leaving k) }
  | published (k : κ) (o : ω) (hplace : s.place t = .making k o) :
      Stepped make s t { s with
        place := Function.update s.place t (.leaving k)
        object := Function.update s.object k (some o) }
  | unlocked (k : κ) (hplace : s.place t = .leaving k) :
      Stepped make s t { s with
        place := Function.update s.place t (.returning k)
        lock := Function.update s.lock k none }
  | returned (k : κ) (hplace : s.place t = .returning k) :
      Stepped make s t { s with
        place := Function.update s.place t .outside
        got := s.got ++ [(k, s.object k)] }

def Act.thread : Act ι κ γ → ι
  | look t _ => t
  | acquire t => t
  | again t _ => t
  | publish t => t
  | unlock t => t
  | back t => t

theorem step_cases {a : Act ι κ γ} (h : step make s a = some s') :
    Stepped make s a.thread s' := by
  cases a with
  | look t k =>
      rcases hplace : s.place t with _ | _ | _ | _ | _ | _
      all_goals simp only [step, hplace, reduceCtorEq, Option.some.injEq] at h
      rw [← h]
      by_cases hobject : s.object k = none
      · rw [if_pos (Option.isNone_iff_eq_none.mpr hobject)]
        exact .looked k hplace hobject
      · rw [if_neg fun hc => hobject (Option.isNone_iff_eq_none.mp hc)]
        exact .found k hplace hobject
  | acquire t =>
      rcases hplace : s.place t with _ | k | _ | _ | _ | _
      all_goals simp only [step, hplace, reduceCtorEq, Option.ite_none_right_eq_some,
        Option.some.injEq] at h
      rw [← h.2]
      exact .acquired k hplace h.1
  | again t g =>
      rcases hplace : s.place t with _ | _ | k | _ | _ | _
      all_goals simp only [step, hplace, reduceCtorEq] at h
      by_cases hobject : s.object k = none
      · rw [if_pos (Option.isNone_iff_eq_none.mpr hobject), Option.some.injEq] at h
        rw [← h]
        exact .began k g hplace hobject
      · rw [if_neg fun hc => hobject (Option.isNone_iff_eq_none.mp hc), Option.some.injEq] at h
        rw [← h]
        exact .spared k hplace hobject
  | publish t =>
      rcases hplace : s.place t with _ | _ | _ | ⟨k, o⟩ | _ | _
      all_goals simp only [step, hplace, reduceCtorEq, Option.some.injEq] at h
      rw [← h]
      exact .published k o hplace
  | unlock t =>
      rcases hplace : s.place t with _ | _ | _ | _ | k | _
      all_goals simp only [step, hplace, reduceCtorEq, Option.some.injEq] at h
      rw [← h]
      exact .unlocked k hplace
  | back t =>
      rcases hplace : s.place t with _ | _ | _ | _ | _ | k
      all_goals simp only [step, hplace, reduceCtorEq, Option.some.injEq] at h
      rw [← h]
      exact .returned k hplace

omit [DecidableEq κ] in
/-- A thread that neither takes nor gives back a lock. -/
theorem owner_move (h : ∀ k t, s.lock k = some t ↔ (s.place t).holds = some k)
    (hp : p.holds = (s.place t).holds) (k' : κ) (t' : ι) :
    s.lock k' = some t' ↔ (Function.update s.place t p t').holds = some k' := by
  by_cases ht : t' = t
  · rw [ht, Function.update_self, hp]
    exact h k' t
  · rw [Function.update_of_ne ht]
    exact h k' t'

omit [DecidableEq κ] in
/-- A thread that neither begins nor ends to make an object. -/
theorem making_move (hold : (s.place t).makes = false) (hnew : p.makes = false) (t' : ι) (o : ω) :
    Function.update s.place t p t' = .making k o ↔ s.Making k t' o := by
  by_cases ht : t' = t
  · rw [ht, Function.update_self]
    refine iff_of_false (fun hc => ?_) fun hc => ?_
    · rw [hc] at hnew
      cases hnew
    · rw [show s.place t = .making k o from hc] at hold
      cases hold
  · rw [Function.update_of_ne ht]
    exact Iff.rfl

omit [DecidableEq ι] [DecidableEq κ] in
theorem settled_move (h : Settled s k) (hobject : s'.object k = s.object k)
    (hmade : s'.made k = s.made k) (hmaking : ∀ t o, s'.Making k t o ↔ s.Making k t o) :
    Settled s' k := by
  cases h with
  | unmade hnone hempty hnobody =>
      exact .unmade (hobject.trans hnone) (hmade.trans hempty)
        fun t o hmk => hnobody t o ((hmaking t o).mp hmk)
  | coming t o hnone hone hmk =>
      exact .coming t o (hobject.trans hnone) (hmade.trans hone) ((hmaking t o).mpr hmk)
  | there o hsome hone hnobody =>
      exact .there o (hobject.trans hsome) (hmade.trans hone)
        fun t o hmk => hnobody t o ((hmaking t o).mp hmk)

omit [DecidableEq ι] [DecidableEq κ] in
/-- A lock has one holder. -/
theorem holder_unique (h : Sound make s) {t' : ι} (ht : (s.place t).holds = some k)
    (ht' : (s.place t').holds = some k) : t' = t := by
  have hlock := (h.owner k t).mpr ht
  rw [(h.owner k t').mpr ht', Option.some.injEq] at hlock
  exact hlock

omit [DecidableEq κ] in
/-- What a step keeps where no object comes and no pointer is set. -/
theorem sound_move (h : Sound make s) {lock : κ → Option ι} {got : List (κ × Option ω)}
    (howner : ∀ k t', lock k = some t' ↔ (Function.update s.place t p t').holds = some k)
    (hold : (s.place t).makes = false) (hnew : p.makes = false)
    (hpassed : ∀ k, p = .leaving k ∨ p = .returning k → s.object k ≠ none)
    (hanswers : ∀ k r, (k, r) ∈ got → ∃ o, r = some o ∧ s.object k = some o) :
    Sound make { s with place := Function.update s.place t p, lock, got } := by
  refine ⟨howner, fun k => ?_, fun k t' ht' => ?_, hanswers, h.built⟩
  · exact settled_move (h.settled k) rfl rfl fun t' o => making_move hold hnew t' o
  · by_cases ht : t' = t
    · simp only [ht, Function.update_self] at ht'
      exact hpassed k ht'
    · simp only [Function.update_of_ne ht] at ht'
      exact h.passed k t' ht'

theorem sound_acquired (h : Sound make s) (hplace : s.place t = .waiting k)
    (hfree : s.lock k = none) :
    Sound make { s with
      place := Function.update s.place t (.locked k)
      lock := Function.update s.lock k (some t) } := by
  refine sound_move h (fun k' t' => ?_) (by rw [hplace]; rfl) rfl ?_ h.answers
  · by_cases hk : k' = k
    · subst hk
      rw [Function.update_self, Option.some.injEq]
      by_cases ht : t' = t
      · rw [ht, Function.update_self]
        exact iff_of_true rfl rfl
      · -- Nobody else has it, since it was free.
        rw [Function.update_of_ne ht, ← h.owner, hfree]
        exact iff_of_false (fun hc => ht hc.symm) (Option.some_ne_none t').symm
    · rw [Function.update_of_ne hk]
      by_cases ht : t' = t
      · have hold := h.owner k' t
        rw [hplace] at hold
        rw [ht, Function.update_self, hold]
        refine iff_of_false (fun hc => ?_) fun hc => ?_
        · cases hc
        · exact hk (Option.some.inj hc).symm
      · rw [Function.update_of_ne ht]
        exact h.owner k' t'
  · rintro k' (hc | hc)
    · cases hc
    · cases hc

theorem sound_unlocked (h : Sound make s) (hplace : s.place t = .leaving k) :
    Sound make { s with
      place := Function.update s.place t (.returning k)
      lock := Function.update s.lock k none } := by
  refine sound_move h (fun k' t' => ?_) (by rw [hplace]; rfl) rfl ?_ h.answers
  · by_cases hk : k' = k
    · subst hk
      rw [Function.update_self]
      refine iff_of_false (fun hc => ?_) fun hc => ?_
      · cases hc
      · by_cases ht : t' = t
        · rw [ht, Function.update_self] at hc
          cases hc
        · rw [Function.update_of_ne ht] at hc
          exact ht (holder_unique h (by rw [hplace]; rfl) hc)
    · rw [Function.update_of_ne hk]
      by_cases ht : t' = t
      · have hold := h.owner k' t
        rw [hplace] at hold
        rw [ht, Function.update_self, hold]
        refine iff_of_false (fun hc => hk (Option.some.inj hc).symm) fun hc => ?_
        cases hc
      · rw [Function.update_of_ne ht]
        exact h.owner k' t'
  · rintro k' (hc | hc)
    · cases hc
    · cases hc
      exact h.passed k t (Or.inl hplace)

/-- The one who has the lock and finds no object is the first to make it. -/
theorem sound_began (h : Sound make s) {g : γ} (hplace : s.place t = .locked k)
    (hobject : s.object k = none) :
    Sound make { s with
      place := Function.update s.place t (.making k (make k g))
      made := Function.update s.made k (s.made k ++ [make k g]) } := by
  have hmine : (s.place t).holds = some k := by
    rw [hplace]
    rfl
  have hempty : s.made k = [] := by
    cases h.settled k with
    | unmade _ hempty _ => exact hempty
    | coming t' o' _ _ hmk =>
        have hmk : s.place t' = .making k o' := hmk
        have hsame := holder_unique h hmine (by rw [hmk]; rfl)
        rw [hsame, hplace] at hmk
        cases hmk
    | there o' hsome _ _ =>
        rw [hobject] at hsome
        cases hsome
  refine ⟨fun k' t' => ?_, fun k' => ?_, fun k' t' ht' => ?_, h.answers, fun k' o ho => ?_⟩
  · exact owner_move h.owner (hmine.symm ▸ rfl) k' t'
  · by_cases hk : k' = k
    · subst hk
      refine .coming t (make k' g) hobject ?_ ?_
      · simp only [Function.update_self, hempty, List.nil_append]
      · exact Function.update_self ..
    · refine settled_move (h.settled k') rfl (Function.update_of_ne hk ..) fun t' o' => ?_
      by_cases ht : t' = t
      · -- It makes another one.
        refine iff_of_false (fun hc => ?_) fun hc => ?_
        · simp only [State.Making, ht, Function.update_self, Place.making.injEq] at hc
          exact hk hc.1.symm
        · rw [State.Making, ht, hplace] at hc
          cases hc
      · simp only [State.Making, Function.update_of_ne ht]
  · by_cases ht : t' = t
    · simp only [ht, Function.update_self, reduceCtorEq, or_self] at ht'
    · simp only [Function.update_of_ne ht] at ht'
      exact h.passed k' t' ht'
  · by_cases hk : k' = k
    · simp only [hk, Function.update_self, hempty, List.nil_append, List.mem_singleton] at ho
      exact ⟨g, by rw [ho, hk]⟩
    · simp only [Function.update_of_ne hk] at ho
      exact h.built k' o ho

/-- What has been made is put into the pointer, which was null. -/
theorem sound_published (h : Sound make s) {o : ω} (hplace : s.place t = .making k o) :
    Sound make { s with
      place := Function.update s.place t (.leaving k)
      object := Function.update s.object k (some o) } := by
  have hmine : (s.place t).holds = some k := by
    rw [hplace]
    rfl
  have hbefore : s.object k = none ∧ s.made k = [o] := by
    cases h.settled k with
    | unmade _ _ hnobody => exact absurd hplace (hnobody t o)
    | coming t' o' hnone hone hmk =>
        have hmk : s.place t' = .making k o' := hmk
        have hsame := holder_unique h hmine (by rw [hmk]; rfl)
        rw [hsame, hplace, Place.making.injEq] at hmk
        rw [hmk.2]
        exact ⟨hnone, hone⟩
    | there _ _ _ hnobody => exact absurd hplace (hnobody t o)
  refine ⟨fun k' t' => ?_, fun k' => ?_, fun k' t' ht' => ?_, fun k' r hr => ?_, h.built⟩
  · exact owner_move h.owner (hmine.symm ▸ rfl) k' t'
  · by_cases hk : k' = k
    · subst hk
      refine .there o (Function.update_self ..) hbefore.2 fun t' o' hmk => ?_
      have hmk : Function.update s.place t (.leaving k') t' = .making k' o' := hmk
      by_cases ht : t' = t
      · rw [ht, Function.update_self] at hmk
        cases hmk
      · rw [Function.update_of_ne ht] at hmk
        exact ht (holder_unique h hmine (by rw [hmk]; rfl))
    · refine settled_move (h.settled k') (Function.update_of_ne hk ..) rfl fun t' o' => ?_
      by_cases ht : t' = t
      · refine iff_of_false (fun hc => ?_) fun hc => ?_
        · simp only [State.Making, ht, Function.update_self, reduceCtorEq] at hc
        · rw [State.Making, ht, hplace, Place.making.injEq] at hc
          exact hk hc.1.symm
      · simp only [State.Making, Function.update_of_ne ht]
  · by_cases hk : k' = k
    · simp only [hk, Function.update_self, ne_eq, reduceCtorEq, not_false_eq_true]
    · simp only [Function.update_of_ne hk]
      by_cases ht : t' = t
      · simp only [ht, Function.update_self, Place.leaving.injEq, reduceCtorEq, or_false] at ht'
        exact absurd ht'.symm hk
      · simp only [Function.update_of_ne ht] at ht'
        exact h.passed k' t' ht'
  · rcases h.answers k' r hr with ⟨o', hr', hobject⟩
    have hk : k' ≠ k := by
      intro hk
      rw [hk, hbefore.1] at hobject
      cases hobject
    exact ⟨o', hr', (Function.update_of_ne hk ..).trans hobject⟩

theorem step_sound (h : Sound make s) {a : Act ι κ γ} (hstep : step make s a = some s') :
    Sound make s' := by
  have hcases := step_cases hstep
  generalize a.thread = t at hcases
  -- Four accesses change locks, objects or pointers; the others move the thread alone.
  cases hcases with
  | looked k hplace _ =>
      refine sound_move h (owner_move h.owner (by rw [hplace]; rfl)) (by rw [hplace]; rfl) rfl ?_
        h.answers
      rintro k' (hc | hc)
      · cases hc
      · cases hc
  | found k hplace hobject =>
      refine sound_move h (owner_move h.owner (by rw [hplace]; rfl)) (by rw [hplace]; rfl) rfl ?_
        h.answers
      rintro k' (hc | hc)
      · cases hc
      · cases hc
        exact hobject
  | acquired k hplace hfree => exact sound_acquired h hplace hfree
  | began k g hplace hobject => exact sound_began h hplace hobject
  | spared k hplace hobject =>
      refine sound_move h (owner_move h.owner (by rw [hplace]; rfl)) (by rw [hplace]; rfl) rfl ?_
        h.answers
      rintro k' (hc | hc)
      · cases hc
        exact hobject
      · cases hc
  | published k o hplace => exact sound_published h hplace
  | unlocked k hplace => exact sound_unlocked h hplace
  | returned k hplace =>
      refine sound_move h (owner_move h.owner (by rw [hplace]; rfl)) (by rw [hplace]; rfl) rfl ?_
        fun k' r hr => ?_
      · rintro k' (hc | hc)
        · cases hc
        · cases hc
      · -- What is returned is what the pointer is, and that is not null any more.
        rcases List.mem_append.mp hr with hr | hr
        · exact h.answers k' r hr
        · rw [List.mem_singleton, Prod.mk.injEq] at hr
          rcases hr with ⟨rfl, rfl⟩
          rcases Option.ne_none_iff_exists'.mp (h.passed k' t (Or.inr hplace)) with ⟨o, ho⟩
          exact ⟨o, ho, ho⟩

theorem run_sound (h : Sound make s) {acts : List (Act ι κ γ)}
    (hrun : run (step make) s acts = some s') : Sound make s' :=
  run_invariant (step make) (Sound make) (fun _ _ _ hs hstep => step_sound hs hstep) s s' acts h
    hrun

/-- In every run of calls every object is made once at most, by its
    constructor, and every call for it returns it. -/
theorem once (acts : List (Act ι κ γ))
    (hrun : run (step make) (State.start ι κ ω) acts = some s) :
    (∀ k, (s.made k).length ≤ 1) ∧
      (∀ k, ∀ o ∈ s.made k, ∃ g, o = make k g) ∧
      ∀ k r, (k, r) ∈ s.got → ∃ g, r = some (make k g) ∧ s.made k = [make k g] := by
  have hsound := run_sound sound_start hrun
  refine ⟨fun k => ?_, hsound.built, fun k r hr => ?_⟩
  · cases hsound.settled k with
    | unmade _ hmade _ => rw [hmade]; exact Nat.zero_le _
    | coming _ _ _ hmade _ => rw [hmade]; exact Nat.le_refl _
    | there _ _ hmade _ => rw [hmade]; exact Nat.le_refl _
  · rcases hsound.answers k r hr with ⟨o, ho, hobject⟩
    have hone : s.made k = [o] := by
      cases hsound.settled k with
      | unmade hnone _ _ =>
          rw [hnone] at hobject
          cases hobject
      | coming _ _ hnone _ _ =>
          rw [hnone] at hobject
          cases hobject
      | there o' hsome hmade _ =>
          rw [hsome] at hobject
          rw [hmade, Option.some.inj hobject]
    rcases hsound.built k o (by rw [hone]; exact List.mem_singleton_self o) with ⟨g, rfl⟩
    exact ⟨g, ho, hone⟩

/-- How many accesses a call has still before it. -/
def Place.distance : Place κ ω → Nat
  | outside => 0
  | waiting _ => 5
  | locked _ => 4
  | making _ _ => 3
  | leaving _ => 2
  | returning _ => 1

/-- A call begins. -/
def Act.begins : Act ι κ γ → Bool
  | look _ _ => true
  | _ => false

/-- The accesses of all calls under way, for some threads. -/
def State.distance (threads : List ι) (s : State ι κ ω) : Nat :=
  total (fun t => (s.place t).distance) threads

/-- A step brings its thread nearer to the end of its call, unless it begins
    one, and no other thread anywhere. -/
theorem step_nearer {a : Act ι κ γ} (hstep : step make s a = some s') :
    (∀ t, t ≠ a.thread → s'.place t = s.place t) ∧
      (s'.place a.thread).distance + (if a.begins then 0 else 1)
        ≤ (s.place a.thread).distance + (if a.begins then 5 else 0) := by
  have hother : ∀ t, t ≠ a.thread → s'.place t = s.place t := by
    intro t ht
    cases step_cases hstep with
    | looked | found | acquired | began | spared | published | unlocked | returned =>
        exact Function.update_of_ne ht ..
  refine ⟨hother, ?_⟩
  cases a with
  | look t k =>
      have hbound : (s'.place t).distance ≤ 5 := by
        cases s'.place t with
        | outside | waiting | locked | making | leaving | returning =>
            simp only [Place.distance]
            omega
      simp only [Act.thread, Act.begins, if_true]
      omega
  | acquire t =>
      rcases hplace : s.place t with _ | k | _ | _ | _ | _
      all_goals simp only [step, hplace, reduceCtorEq, Option.ite_none_right_eq_some,
        Option.some.injEq] at hstep
      rw [← hstep.2]
      simp [Act.thread, Act.begins, hplace, Place.distance]
  | again t g =>
      rcases hplace : s.place t with _ | _ | k | _ | _ | _
      all_goals simp only [step, hplace, reduceCtorEq] at hstep
      by_cases hobject : (s.object k).isNone = true
      · rw [if_pos hobject, Option.some.injEq] at hstep
        rw [← hstep]
        simp [Act.thread, Act.begins, hplace, Place.distance]
      · rw [if_neg hobject, Option.some.injEq] at hstep
        rw [← hstep]
        simp [Act.thread, Act.begins, hplace, Place.distance]
  | publish t =>
      rcases hplace : s.place t with _ | _ | _ | ⟨k, o⟩ | _ | _
      all_goals simp only [step, hplace, reduceCtorEq, Option.some.injEq] at hstep
      rw [← hstep]
      simp [Act.thread, Act.begins, hplace, Place.distance]
  | unlock t =>
      rcases hplace : s.place t with _ | _ | _ | _ | k | _
      all_goals simp only [step, hplace, reduceCtorEq, Option.some.injEq] at hstep
      rw [← hstep]
      simp [Act.thread, Act.begins, hplace, Place.distance]
  | back t =>
      rcases hplace : s.place t with _ | _ | _ | _ | _ | k
      all_goals simp only [step, hplace, reduceCtorEq, Option.some.injEq] at hstep
      rw [← hstep]
      simp [Act.thread, Act.begins, hplace, Place.distance]

/-- As long as some call is under way, some thread in a call can go on. -/
theorem step_goes [Nonempty γ] (h : Sound make s) (hbusy : ∃ t, s.place t ≠ .outside) :
    ∃ a : Act ι κ γ, a.begins = false ∧ (step make s a).isSome = true := by
  rcases ‹Nonempty γ› with ⟨g⟩
  -- Whoever is inside and does not wait goes on at once.
  have hgoes : ∀ t, s.place t ≠ .outside → (∀ k, s.place t ≠ .waiting k) →
      ∃ a : Act ι κ γ, a.begins = false ∧ (step make s a).isSome = true := by
    intro t hinside hnot
    rcases hplace : s.place t with _ | k | k | ⟨k, o'⟩ | k | k
    · exact absurd hplace hinside
    · exact absurd hplace (hnot k)
    · refine ⟨.again t g, rfl, ?_⟩
      by_cases hobject : (s.object k).isNone = true
      · simp only [step, hplace, if_pos hobject, Option.isSome_some]
      · simp only [step, hplace, if_neg hobject, Option.isSome_some]
    · exact ⟨.publish t, rfl, by simp only [step, hplace, Option.isSome_some]⟩
    · exact ⟨.unlock t, rfl, by simp only [step, hplace, Option.isSome_some]⟩
    · exact ⟨.back t, rfl, by simp only [step, hplace, Option.isSome_some]⟩
  rcases hbusy with ⟨t, hinside⟩
  by_cases hwaits : ∃ k, s.place t = .waiting k
  · rcases hwaits with ⟨k, hplace⟩
    rcases hlock : s.lock k with _ | t'
    · exact ⟨.acquire t, rfl, by simp only [step, hplace, if_pos hlock, Option.isSome_some]⟩
    · -- The lock is somebody's, who has one already and so waits for none.
      have hholds := (h.owner k t').mp hlock
      refine hgoes t' (fun hc => ?_) fun k' hc => ?_
      · rw [hc] at hholds
        cases hholds
      · rw [hc] at hholds
        cases hholds
  · exact hgoes t hinside fun k hc => hwaits ⟨k, hc⟩

/-- Among `n` threads calls pay for their accesses when they begin. -/
theorem distance_amortized {n : Nat} :
    Amortized (step make : State (Fin n) κ ω → Act (Fin n) κ γ → Option (State (Fin n) κ ω))
      (Sound make) (State.distance (List.finRange n))
      (fun a => if a.begins then 5 else 0) (fun a => if a.begins then 0 else 1) := by
  refine ⟨fun s a s' hs hstep => step_sound hs hstep, fun s a s' _ hstep => ?_⟩
  rcases step_nearer hstep with ⟨hother, hmine⟩
  have hupdate := total_update (List.nodup_finRange n) (List.mem_finRange a.thread)
    fun t ht => congrArg Place.distance (hother t ht)
  unfold State.distance
  omega

/-- Whatever the threads have done, and however they take turns from then on:
    if no further call begins, at most five accesses for each thread are left,
    and there is one to be made as long as some call has not returned. -/
theorem calls_finish {n : Nat} [Nonempty γ] (acts : List (Act (Fin n) κ γ))
    {s : State (Fin n) κ ω}
    (hrun : run (step make) (State.start (Fin n) κ ω) acts = some s)
    (more : List (Act (Fin n) κ γ)) (hmore : ∀ a ∈ more, a.begins = false)
    {u : State (Fin n) κ ω} (hlater : run (step make) s more = some u) :
    more.length ≤ 5 * n ∧
      ((∀ t, u.place t = .outside) ∨
        ∃ a : Act (Fin n) κ γ, a.begins = false ∧ (step make u a).isSome = true) := by
  have hsound := run_sound sound_start hrun
  have hsound' := run_sound hsound hlater
  constructor
  · have hspent := amortized_run distance_amortized hsound hlater
    have hadds : total (fun a : Act (Fin n) κ γ => if a.begins then 5 else 0) more
        = total (fun _ => 0) more :=
      total_congr fun a ha => by rw [hmore a ha, if_neg Bool.false_ne_true]
    have hspends : total (fun a : Act (Fin n) κ γ => if a.begins then 0 else 1) more
        = total (fun _ => 0 + 1) more :=
      total_congr fun a ha => by rw [hmore a ha, if_neg Bool.false_ne_true]
    have hnone : total (fun _ : Act (Fin n) κ γ => 0) more ≤ 0 * more.length :=
      total_le fun _ _ => Nat.le_refl 0
    have hbound : s.distance (List.finRange n) ≤ 5 * (List.finRange n).length := by
      refine total_le fun t _ => ?_
      cases s.place t with
      | outside | waiting | locked | making | leaving | returning =>
          simp only [Place.distance]
          omega
    rw [hadds, hspends, total_succ] at hspent
    rw [List.length_finRange] at hbound
    omega
  · by_cases hall : ∀ t, u.place t = .outside
    · exact Or.inl hall
    · rw [not_forall] at hall
      exact Or.inr (step_goes hsound' hall)

end Once

end Foundation
