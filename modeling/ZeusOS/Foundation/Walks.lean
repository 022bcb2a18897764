import Mathlib.Data.List.Nodup
import Mathlib.Data.List.Pairwise
import Mathlib.Data.List.Perm.Basic
import Mathlib.Logic.Relation

/-!
# Walks

Recursive walks of a graph that is given by the nodes each node leads to. A walk
carries a state along; what it does at a node, and where it goes on from there,
may depend on the state. It is not known to end, so it is given fuel, which
bounds the depth of the recursion, and has no result if that is not enough.

Where the nodes do not depend on the state, the nodes a walk comes upon are
known beforehand: they are the preorder of the graph from where it starts, and
the walk is a fold over that list. Every fact about such a walk is then one
about a list. `walk_of_preorder` asks for less: it is enough that the state
agrees with the list as long as the list lasts.

There are two reasons for a walk to end: every node is lower than the one that
led to it, or every visit that goes on uses something of the state up.

## Main definitions

* `walk`: The walk.
* `preorder`: The nodes it comes upon, where they do not depend on the state.
* `trail`: The nodes it comes upon, where they may.
* `Leads`: There is a path from one node to another.

## Theorems

* `walk_of_preorder`: The walk is a fold over the preorder.
* `walk_eq_preorder`: And the preorder is there if the walk ends.
* `walk_eq_trail`: Any walk is a fold over its trail.
* `preorder_perm`: Every node of a preorder but the first is led to by one.
* `preorder_unique`: If it has none twice, every one is led to once.
* `mem_preorder_iff`: The nodes of a preorder.
* `preorder_nodup`: Where no two paths meet, it has no node twice.
* `preorder_of_height`, `walk_of_measure`: When walks end.
* `visited_keeps`, `walk_keeps`: What every visit keeps.
-/

namespace Foundation

namespace Walks

variable {α σ : Type}

/-- Visit a node, then walk from each of the nodes it leads to. -/
def walk (visit : α → σ → σ × List α) : Nat → α → σ → Option σ
  | 0, _, _ => none
  | fuel + 1, x, s => (visit x s).2.foldlM (fun s y => walk visit fuel y s) (visit x s).1

/-- The lists of some nodes, one after another. -/
def forest (f : α → Option (List α)) : List α → Option (List α)
  | [] => some []
  | y :: ys => (f y).bind fun v => (forest f ys).map (v ++ ·)

/-- A node, and the preorders of those it leads to. -/
def preorder (children : α → List α) : Nat → α → Option (List α)
  | 0, _ => none
  | fuel + 1, x => (forest (preorder children fuel) (children x)).map (x :: ·)

/-- A node leads to another through children. -/
def Leads (children : α → List α) : α → α → Prop :=
  Relation.ReflTransGen fun x y => y ∈ children x

/-- An induction over preorders: `P` is about a node, `Q` about the nodes one
    node leads to. -/
theorem preorder_induct {children : α → List α} (P : Nat → α → List α → Prop)
    (Q : Nat → List α → List α → Prop) (hnil : ∀ fuel, Q fuel [] [])
    (hcons : ∀ fuel y ys v ws, P fuel y v → Q fuel ys ws → Q fuel (y :: ys) (v ++ ws))
    (hnode : ∀ fuel x ws, Q fuel (children x) ws → P (fuel + 1) x (x :: ws)) {fuel : Nat} {x : α}
    {vs : List α} (h : preorder children fuel x = some vs) : P fuel x vs := by
  induction fuel generalizing x vs with
  | zero => cases h
  | succ fuel ih =>
      rw [preorder, Option.map_eq_some_iff] at h
      rcases h with ⟨ws, hws, rfl⟩
      refine hnode fuel x ws ?_
      generalize children x = ys at hws
      -- The nodes it leads to, one after another.
      induction ys generalizing ws with
      | nil =>
          cases hws
          exact hnil fuel
      | cons y ys ihys =>
          rw [forest, Option.bind_eq_some_iff] at hws
          rcases hws with ⟨v, hv, hws⟩
          rw [Option.map_eq_some_iff] at hws
          rcases hws with ⟨ws', hws', rfl⟩
          exact hcons fuel y ys v ws' (ih hv) (ihys ws' hws')

section

variable {visit : α → σ → σ × List α} {children : α → List α}

/-- What the visits of some nodes make of a state. -/
def visited (visit : α → σ → σ × List α) (vs : List α) (s : σ) : σ :=
  vs.foldl (fun s x => (visit x s).1) s

theorem visited_append (vs ws : List α) (s : σ) :
    visited visit (vs ++ ws) s = visited visit ws (visited visit vs s) := List.foldl_append

/-- A walk is a fold over the preorder, if at every node of it the state leads
    to the node's children. `I` says of a state what is needed for that while
    the rest of the list is still to come. -/
theorem walk_of_preorder (I : List α → σ → Prop)
    (hvisit : ∀ x rest s, I (x :: rest) s → (visit x s).2 = children x ∧ I rest (visit x s).1)
    {fuel : Nat} {x : α} {vs : List α} (hvs : preorder children fuel x = some vs) (rest : List α)
    (s : σ) (hs : I (vs ++ rest) s) :
    walk visit fuel x s = some (visited visit vs s) ∧ I rest (visited visit vs s) := by
  refine preorder_induct
    (fun fuel x vs => ∀ rest s, I (vs ++ rest) s →
      walk visit fuel x s = some (visited visit vs s) ∧ I rest (visited visit vs s))
    (fun fuel ys vs => ∀ rest s, I (vs ++ rest) s →
      ys.foldlM (fun s y => walk visit fuel y s) s = some (visited visit vs s) ∧
        I rest (visited visit vs s)) ?_ ?_ ?_ hvs rest s hs
  · exact fun _ _ _ hs => ⟨rfl, hs⟩
  · intro fuel y ys v ws hy hys rest s hs
    rw [List.append_assoc] at hs
    rcases hy (ws ++ rest) s hs with ⟨hwalk, hbetween⟩
    rw [List.foldlM_cons, hwalk, visited_append]
    exact hys rest _ hbetween
  · intro fuel x ws hws rest s hs
    rcases hvisit x (ws ++ rest) s hs with ⟨hchildren, hnext⟩
    rw [walk, hchildren]
    exact hws rest _ hnext

/-- If the state has no say in where the walk goes, it ends if and only if there
    is a preorder. -/
theorem walk_eq_preorder (hvisit : ∀ x s, (visit x s).2 = children x) (fuel : Nat) (x : α) (s : σ) :
    walk visit fuel x s = (preorder children fuel x).map fun vs => visited visit vs s := by
  cases hvs : preorder children fuel x with
  | some vs =>
      exact (walk_of_preorder (fun _ _ => True) (fun x _ s _ => ⟨hvisit x s, trivial⟩) hvs [] s
        trivial).1
  | none =>
      induction fuel generalizing x s with
      | zero => rfl
      | succ fuel ih =>
          rw [preorder, Option.map_eq_none_iff] at hvs
          rw [walk, hvisit]
          generalize (visit x s).1 = t
          generalize children x = ys at hvs
          -- Some child has no preorder, and the walk does not get past the first of those.
          induction ys generalizing t with
          | nil => cases hvs
          | cons y ys ihys =>
              rw [List.foldlM_cons]
              cases hv : preorder children fuel y with
              | none =>
                  rw [ih y t hv]
                  rfl
              | some v =>
                  rw [forest, hv, Option.bind_some, Option.map_eq_none_iff] at hvs
                  rw [(walk_of_preorder (fun _ _ => True) (fun x _ s _ => ⟨hvisit x s, trivial⟩) hv []
                    t trivial).1]
                  exact ihys _ hvs

/-- Every node of a preorder but the first stands there because a node of it
    leads to it. -/
theorem preorder_perm {fuel : Nat} {x : α} {vs : List α}
    (h : preorder children fuel x = some vs) : vs.Perm (x :: vs.flatMap children) := by
  refine preorder_induct (fun _ x vs => vs.Perm (x :: vs.flatMap children))
    (fun _ ys ws => ws.Perm (ys ++ ws.flatMap children)) ?_ ?_ ?_ h
  · exact fun _ => List.Perm.refl _
  · intro _ y ys v ws hv hws
    rw [List.flatMap_append]
    calc v ++ ws
      _ |>.Perm ((y :: v.flatMap children) ++ (ys ++ ws.flatMap children)) := hv.append hws
      _ |>.Perm (y :: (ys ++ (v.flatMap children ++ ws.flatMap children))) := by
          rw [List.cons_append]
          exact (List.perm_append_comm_assoc _ _ _).cons y
  · intro _ x ws hws
    rw [List.flatMap_cons]
    exact hws.cons x

/-- In a preorder that has no node twice nothing leads to the first node, and
    one node to each of the others, once. -/
theorem preorder_unique {fuel : Nat} {x : α} {vs : List α}
    (h : preorder children fuel x = some vs) (hnodup : vs.Nodup) :
    (∀ z ∈ vs, x ∉ children z) ∧ (∀ z ∈ vs, (children z).Nodup) ∧
      ∀ z ∈ vs, ∀ z' ∈ vs, ∀ y ∈ children z, y ∈ children z' → z = z' := by
  have hnodup' := (preorder_perm h).nodup_iff.mp hnodup
  rw [List.nodup_cons, List.nodup_flatMap] at hnodup'
  rcases hnodup' with ⟨hfirst, heach, hapart⟩
  refine ⟨fun z hz hx => hfirst (List.mem_flatMap.mpr ⟨z, hz, hx⟩), heach, ?_⟩
  intro z hz z' hz' y hy hy'
  have hsymm : Std.Symm (Function.onFun List.Disjoint children) :=
    ⟨fun _ _ hdisjoint _ hmem hmem' => hdisjoint hmem' hmem⟩
  by_contra hne
  exact hapart.forall hz hz' hne hy hy'

/-- The nodes of a preorder are those the first one leads to. -/
theorem mem_preorder_iff {fuel : Nat} {x : α} {vs : List α}
    (h : preorder children fuel x = some vs) {z : α} : z ∈ vs ↔ Leads children x z := by
  constructor
  · refine preorder_induct (fun _ x vs => ∀ z ∈ vs, Leads children x z)
      (fun _ ys ws => ∀ z ∈ ws, ∃ y ∈ ys, Leads children y z) ?_ ?_ ?_ h z
    · exact fun _ _ hz => absurd hz List.not_mem_nil
    · intro _ y ys v ws hv hws z hz
      rcases List.mem_append.mp hz with hz | hz
      · exact ⟨y, List.mem_cons_self, hv z hz⟩
      · rcases hws z hz with ⟨y', hy', hleads⟩
        exact ⟨y', List.mem_cons_of_mem _ hy', hleads⟩
    · intro _ x ws hws z hz
      rcases List.mem_cons.mp hz with rfl | hz
      · exact Relation.ReflTransGen.refl
      · rcases hws z hz with ⟨y, hy, hleads⟩
        exact Relation.ReflTransGen.head hy hleads
  · intro hleads
    induction hleads with
    | refl => exact (preorder_perm h).mem_iff.mpr List.mem_cons_self
    | tail _ hchild ih =>
        refine (preorder_perm h).mem_iff.mpr (List.mem_cons_of_mem _ ?_)
        exact List.mem_flatMap.mpr ⟨_, ih, hchild⟩

/-- If no node leads back to where it came from, and none can be got to through
    two children of one node, no node is in a preorder twice. -/
theorem preorder_nodup (hback : ∀ x, ∀ y ∈ children x, ¬ Leads children y x)
    (hapart : ∀ x, (children x).Pairwise fun y y' => ∀ z, Leads children y z → ¬ Leads children y' z)
    {fuel : Nat} {x : α} {vs : List α} (h : preorder children fuel x = some vs) : vs.Nodup := by
  refine (preorder_induct (fun _ x vs => (∀ z ∈ vs, Leads children x z) ∧ vs.Nodup)
    (fun _ ys ws => (∀ z ∈ ws, ∃ y ∈ ys, Leads children y z) ∧
      ((ys.Pairwise fun y y' => ∀ z, Leads children y z → ¬ Leads children y' z) → ws.Nodup))
    ?_ ?_ ?_ h).2
  · exact fun _ => ⟨fun _ hz => absurd hz List.not_mem_nil, fun _ => List.nodup_nil⟩
  · rintro _ y ys v ws ⟨hv, hvnodup⟩ ⟨hws, hwsnodup⟩
    refine ⟨fun z hz => ?_, fun hpairwise => ?_⟩
    · rcases List.mem_append.mp hz with hz | hz
      · exact ⟨y, List.mem_cons_self, hv z hz⟩
      · rcases hws z hz with ⟨y', hy', hleads⟩
        exact ⟨y', List.mem_cons_of_mem _ hy', hleads⟩
    · rw [List.pairwise_cons] at hpairwise
      refine List.nodup_append.mpr ⟨hvnodup, hwsnodup hpairwise.2, ?_⟩
      rintro z hz _ hz' rfl
      rcases hws z hz' with ⟨y', hy', hleads⟩
      exact hpairwise.1 y' hy' z (hv z hz) hleads
  · rintro _ x ws ⟨hws, hnodup⟩
    refine ⟨fun z hz => ?_, List.nodup_cons.mpr ⟨fun hx => ?_, hnodup (hapart x)⟩⟩
    · rcases List.mem_cons.mp hz with rfl | hz
      · exact Relation.ReflTransGen.refl
      · rcases hws z hz with ⟨y, hy, hleads⟩
        exact Relation.ReflTransGen.head hy hleads
    · rcases hws x hx with ⟨y, hy, hleads⟩
      exact hback x y hy hleads

theorem forest_isSome {f : α → Option (List α)} {ys : List α} (h : ∀ y ∈ ys, ∃ v, f y = some v) :
    ∃ vs, forest f ys = some vs := by
  induction ys with
  | nil => exact ⟨[], rfl⟩
  | cons y ys ih =>
      rcases h y List.mem_cons_self with ⟨v, hv⟩
      rcases ih fun y' hy' => h y' (List.mem_cons_of_mem _ hy') with ⟨ws, hws⟩
      exact ⟨v ++ ws, by rw [forest, hv, hws, Option.bind_some, Option.map_some]⟩

/-- Where every node is lower than the one that led to it, fuel for the height
    is enough. -/
theorem preorder_of_height (height : α → Nat) {fuel : Nat} {x : α}
    (hlower : ∀ z, Leads children x z → ∀ y ∈ children z, height y < height z)
    (hfuel : height x < fuel) : ∃ vs, preorder children fuel x = some vs := by
  induction fuel generalizing x with
  | zero => exact absurd hfuel (Nat.not_lt_zero _)
  | succ fuel ih =>
      have hys : ∀ y ∈ children x, ∃ v, preorder children fuel y = some v := by
        intro y hy
        have hlt := hlower x Relation.ReflTransGen.refl y hy
        exact ih (fun z hz => hlower z (Relation.ReflTransGen.head hy hz)) (by omega)
      rcases forest_isSome hys with ⟨ws, hws⟩
      exact ⟨x :: ws, by rw [preorder, hws, Option.map_some]⟩

theorem forest_congr {f g : α → Option (List α)} {ys : List α} (h : ∀ y ∈ ys, f y = g y) :
    forest f ys = forest g ys := by
  induction ys with
  | nil => rfl
  | cons y ys ih =>
      rw [forest, forest, h y List.mem_cons_self, ih fun y' hy' => h y' (List.mem_cons_of_mem _ hy')]

/-- A preorder depends on nothing but the children of the nodes it gets to. -/
theorem preorder_congr {children' : α → List α} {fuel : Nat} {x : α}
    (h : ∀ z, Leads children x z → children z = children' z) :
    preorder children fuel x = preorder children' fuel x := by
  induction fuel generalizing x with
  | zero => rfl
  | succ fuel ih =>
      rw [preorder, preorder, ← h x Relation.ReflTransGen.refl]
      refine congrArg _ (forest_congr fun y hy => ih fun z hz => ?_)
      exact h z (Relation.ReflTransGen.head hy hz)

/-- The trails of some nodes, one after another, each from where the one before
    has left the state. -/
def trails (visit : α → σ → σ × List α) (f : α → σ → Option (List α)) :
    List α → σ → Option (List α)
  | [], _ => some []
  | y :: ys, s => (f y s).bind fun v => (trails visit f ys (visited visit v s)).map (v ++ ·)

/-- The nodes a walk comes upon, in order. -/
def trail (visit : α → σ → σ × List α) : Nat → α → σ → Option (List α)
  | 0, _, _ => none
  | fuel + 1, x, s =>
    (trails visit (trail visit fuel) (visit x s).2 (visit x s).1).map (x :: ·)

/-- A walk is a fold over its trail. -/
theorem walk_eq_trail (fuel : Nat) (x : α) (s : σ) :
    walk visit fuel x s = (trail visit fuel x s).map fun vs => visited visit vs s := by
  induction fuel generalizing x s with
  | zero => rfl
  | succ fuel ih =>
      rw [walk, trail, Option.map_map]
      show _ = (trails visit (trail visit fuel) (visit x s).2 (visit x s).1).map
        fun vs => visited visit vs (visit x s).1
      generalize (visit x s).1 = u
      generalize (visit x s).2 = ys
      induction ys generalizing u with
      | nil => rfl
      | cons y ys ihys =>
          rw [List.foldlM_cons, ih, trails]
          cases trail visit fuel y u with
          | none => rfl
          | some v =>
              rw [Option.map_some, Option.bind_some, Option.map_map]
              simp only [Function.comp_def, visited_append]
              exact ihys (visited visit v u)

theorem visited_keeps {P : σ → Prop} (hkeep : ∀ y s, P s → P (visit y s).1) (vs : List α) {s : σ}
    (hs : P s) : P (visited visit vs s) := by
  induction vs generalizing s with
  | nil => exact hs
  | cons y vs ih => exact ih (hkeep y s hs)

/-- What holds after the first visit and is kept by every other holds at the
    end. -/
theorem walk_keeps {P : σ → Prop} (hkeep : ∀ y s, P s → P (visit y s).1) {fuel : Nat} {x : α}
    {s t : σ} (h : walk visit fuel x s = some t) (hs : P (visit x s).1) : P t := by
  induction fuel generalizing x s t with
  | zero => cases h
  | succ fuel ih =>
      rw [walk] at h
      generalize (visit x s).1 = u at h hs
      generalize (visit x s).2 = ys at h
      induction ys generalizing u with
      | nil =>
          cases h
          exact hs
      | cons y ys ihys =>
          rw [List.foldlM_cons] at h
          cases hy : walk visit fuel y u with
          | none =>
              rw [hy] at h
              cases h
          | some u' =>
              rw [hy] at h
              exact ihys u' (ih hy (hkeep y u hs)) h

/-- Where every visit that goes on uses something up, fuel for what there is of
    it is enough. -/
theorem walk_of_measure (measure : σ → Nat) (hle : ∀ x s, measure (visit x s).1 ≤ measure s)
    (hlt : ∀ x s, (visit x s).2 ≠ [] → measure (visit x s).1 < measure s) {fuel : Nat} (x : α) {s : σ}
    (hfuel : measure s < fuel) :
    ∃ t, walk visit fuel x s = some t ∧ measure t ≤ measure s := by
  induction fuel generalizing x s with
  | zero => exact absurd hfuel (Nat.not_lt_zero _)
  | succ fuel ih =>
      rw [walk]
      have hnext := hle x s
      by_cases hend : (visit x s).2 = []
      · rw [hend]
        exact ⟨(visit x s).1, rfl, hnext⟩
      · have hless := hlt x s hend
        generalize (visit x s).1 = u at hnext hless
        generalize (visit x s).2 = ys
        -- What one node leaves is enough for the next.
        induction ys generalizing u with
        | nil => exact ⟨u, rfl, hnext⟩
        | cons y ys ihys =>
            rcases ih y (show measure u < fuel by omega) with ⟨u', hu', hle'⟩
            rw [List.foldlM_cons, hu']
            exact ihys u' (by omega) (by omega)

end

end Walks

end Foundation
