import Mathlib.Data.List.Nodup

/-!
# Keyed Lists

A list of records, each with a key, read as a finite map: a key stands for the
value of the first record that has it. Records that are put in front win over
those behind them, and where no two records have the same key the order does
not matter.

The operations are the two such a list is maintained with: a new record is put
in front, and a record that is there is changed where it stands, its key kept.
Each changes the map at one key.

## Main definitions

* `lookup`: What a key stands for.

## Theorems

* `find_some`, `find_none`: What a search ends on.
* `eraseP_of_find`: What a search ends on is erased as an element.
* `find_map`: A change that keeps the keys keeps the searches.
* `lookup_cons`: A record in front.
* `lookup_map`: A record changed in place.
* `map_field`: What a change in place keeps.
-/

namespace Foundation

namespace Keyed

variable {α κ ν : Type} [DecidableEq κ] {key : α → κ} {value : α → ν}

/-- The value of the first record with the key. -/
def lookup (key : α → κ) (value : α → ν) (l : List α) (k : κ) : Option ν :=
  (l.find? fun a => key a = k).map value

/-- What a search for a key ends on. -/
theorem find_some {l : List α} {k : κ} {a : α} (h : (l.find? fun b => key b = k) = some a) :
    a ∈ l ∧ key a = k := by
  have hkey := List.find?_some h
  rw [decide_eq_true_eq] at hkey
  exact ⟨List.mem_of_find?_eq_some h, hkey⟩

theorem find_none {l : List α} {k : κ} :
    (l.find? fun b => key b = k) = none ↔ ∀ a ∈ l, key a ≠ k := by
  simp only [List.find?_eq_none, decide_eq_true_eq, ne_eq]

/-- The first element that meets a condition is erased as that element. -/
theorem eraseP_of_find {β : Type} [DecidableEq β] {p : β → Bool} {l : List β} {a : β}
    (h : l.find? p = some a) : l.eraseP p = l.erase a := by
  induction l with
  | nil => cases h
  | cons b l ih =>
      by_cases hp : p b = true
      · rw [List.find?_cons_of_pos hp, Option.some.injEq] at h
        rw [List.eraseP_cons_of_pos hp, h, List.erase_cons_head]
      · rw [List.find?_cons_of_neg hp] at h
        -- The element found meets the condition, so it is not the head.
        have hne : ¬ (b == a) = true := by
          rw [beq_iff_eq]
          intro heq
          exact hp (heq ▸ List.find?_some h)
        rw [List.eraseP_cons_of_neg hp, ih h, List.erase_cons_tail hne]

/-- Where the keys stay as they are, every search ends on the changed form of
    the record it ended on. -/
theorem find_map (f : α → α) {l : List α} (hkey : ∀ b ∈ l, key (f b) = key b) (k : κ) :
    ((l.map f).find? fun b => key b = k) = (l.find? fun b => key b = k).map f := by
  induction l with
  | nil => rfl
  | cons b l ih =>
      have hrest := ih fun b hb => hkey b (List.mem_cons_of_mem _ hb)
      rw [List.map_cons, List.find?_cons, List.find?_cons, hkey b List.mem_cons_self, hrest]
      by_cases hk : key b = k
      · rw [decide_eq_true hk]
        rfl
      · rw [decide_eq_false hk]

/-- A record put in front takes its key over. -/
theorem lookup_cons (l : List α) (a : α) (k : κ) :
    lookup key value (a :: l) k = if k = key a then some (value a) else lookup key value l k := by
  unfold lookup
  -- The search looks at the new record first and stops there if it has the key.
  by_cases hk : k = key a
  · rw [if_pos hk, List.find?_cons, decide_eq_true hk.symm, Option.map_some]
  · rw [if_neg hk, List.find?_cons, decide_eq_false (Ne.symm hk)]

/-- A record changed where it stands changes the value of its key. The change
    may be described by any function that leaves the other records alone. -/
theorem lookup_map {l : List α} (hunique : (l.map key).Nodup) {a : α} (ha : a ∈ l) (f : α → α)
    (hkey : ∀ b ∈ l, key (f b) = key b) (hother : ∀ b ∈ l, key b ≠ key a → f b = b) (k : κ) :
    lookup key value (l.map f) k
      = if k = key a then some (value (f a)) else lookup key value l k := by
  -- The induction is on the list, down to where the changed record stands.
  induction l with
  | nil => exact absurd ha List.not_mem_nil
  | cons b l ih =>
      rw [List.map_cons, List.nodup_cons] at hunique
      have hhead := hkey b List.mem_cons_self
      have hkeys : ∀ b ∈ l, key (f b) = key b := fun b hb => hkey b (List.mem_cons_of_mem _ hb)
      rw [List.map_cons, lookup_cons, lookup_cons, hhead]
      rcases List.mem_cons.mp ha with rfl | ha
      · -- The record is in front, and nothing behind it has its key.
        have hrest : l.map f = l := by
          refine (List.map_congr_left fun b hb => ?_).trans (List.map_id' l)
          refine hother b (List.mem_cons_of_mem _ hb) fun heq => hunique.1 ?_
          rw [← heq]
          exact List.mem_map_of_mem hb
        rw [hrest]
        by_cases hk : k = key a
        · rw [if_pos hk, if_pos hk]
        · rw [if_neg hk, if_neg hk, if_neg hk]
      -- It stands behind this one, whose key is then another.
      · have hne : key b ≠ key a := by
          intro heq
          refine hunique.1 ?_
          rw [heq]
          exact List.mem_map_of_mem ha
        -- This record is left alone, and the change behind it does not show through its key.
        rw [ih hunique.2 ha hkeys fun b hb => hother b (List.mem_cons_of_mem _ hb),
          hother b List.mem_cons_self hne]
        by_cases hk : k = key b
        · rw [if_pos hk, if_pos hk, if_neg fun h => hne (hk.symm.trans h)]
        · rw [if_neg hk, if_neg hk]

/-- A field that the changed records keep is the same all along the list. -/
theorem map_field {β : Type} (field : α → β) (p : α → Prop) [DecidablePred p] (change : α → α)
    {l : List α} (hkeep : ∀ a ∈ l, p a → field (change a) = field a) :
    (l.map fun a => if p a then change a else a).map field = l.map field := by
  rw [List.map_map]
  refine List.map_congr_left fun a ha => ?_
  by_cases hp : p a
  · rw [Function.comp_apply, if_pos hp, hkeep a ha hp]
  · rw [Function.comp_apply, if_neg hp]

end Keyed

end Foundation
