import Mathlib.Data.List.Basic

/-!
# Segments of a Stream

A stream of items in which some items end a segment, read in chunks that are
cut without regard to where the segments end.

A reader that keeps what it has of a segment only for the chunk at hand sees,
of each segment, just the items that share a chunk with its end mark. It may
carry something else across: `tick` is a tally that every item moves, and it
goes on from chunk to chunk. `segments` is what such a reader makes of one
chunk and `chunked` what it makes of a list of them.

Where chunks end with end marks the cutting cannot be seen: then `chunked` is
`segments` of the whole stream.

## Main definitions

* `Segment`, `segments`: What ends in a chunk, and the tally there.
* `upTo`: A chunk up to its `n`-th end mark.
* `tallied`: The tally after a chunk.
* `chunked`: Chunk after chunk.

## Theorems

* `segments_length`: One segment for every end mark.
* `segments_items`: The items do not depend on the tally.
* `segments_tally`: A segment's tally is that of its own last items, where an
  item among them sets it.
* `segments_append`: A closed chunk and what follows it.
* `chunked_eq_segments`: Closed chunks cannot be told from the stream.
* `upTo_of_count_le`: A chunk with few end marks has the same segments.
* `chunked_upTo_eq_segments`: The two together.
* `chunked_tally`: The tallies do not depend on the cutting.
-/

namespace Foundation

namespace Segments

/-- What a reader has of a segment: items before the end mark, and the tally
    that includes the mark. -/
structure Segment (α β : Type) where
  items : List α
  tally : β
  deriving DecidableEq, Repr

variable {α β : Type} (isEnd : α → Bool) (tick : β → α → β)

/-- The segments that end in a chunk, given the items and the tally it starts
    with. -/
def segments : List α → β → List α → List (Segment α β)
  | _, _, [] => []
  | items, b, x :: xs =>
    if isEnd x then ⟨items, tick b x⟩ :: segments [] (tick b x) xs
    else segments (items ++ [x]) (tick b x) xs

/-- The tally after a chunk. -/
def tallied (b : β) (xs : List α) : β := xs.foldl tick b

/-- A chunk up to and including its `n`-th end mark. -/
def upTo : Nat → List α → List α
  | 0, _ => []
  | _ + 1, [] => []
  | n + 1, x :: xs => x :: upTo (if isEnd x then n else n + 1) xs

/-- The segments of each chunk, the tally going on from one to the next. -/
def chunked : β → List (List α) → List (List (Segment α β))
  | _, [] => []
  | b, c :: cs => segments isEnd tick [] b c :: chunked (tallied tick b c) cs

/-- A chunk that stops at an end mark, if it has items at all. -/
def Closed (xs : List α) : Prop := ∀ x ∈ xs.getLast?, isEnd x = true

variable {isEnd tick}

theorem segments_end {x : α} (hx : isEnd x = true) (items : List α) (b : β) (xs : List α) :
    segments isEnd tick items b (x :: xs)
      = ⟨items, tick b x⟩ :: segments isEnd tick [] (tick b x) xs := by
  rw [segments, if_pos hx]

theorem segments_item {x : α} (hx : isEnd x = false) (items : List α) (b : β) (xs : List α) :
    segments isEnd tick items b (x :: xs)
      = segments isEnd tick (items ++ [x]) (tick b x) xs := by
  rw [segments, hx]
  exact if_neg Bool.false_ne_true

theorem countP_item {x : α} (hx : isEnd x = false) (xs : List α) :
    (x :: xs).countP isEnd = xs.countP isEnd :=
  List.countP_cons_of_neg (by rw [hx]; exact Bool.false_ne_true)

/-- What is left of a closed chunk is closed. -/
theorem closed_tail {x : α} {xs : List α} (hclosed : Closed isEnd (x :: xs)) :
    Closed isEnd xs := by
  intro y hy
  have hne : xs ≠ [] := by
    rintro rfl
    cases hy
  refine hclosed y ?_
  rwa [List.getLast?_cons_of_ne_nil hne]

theorem upTo_zero (xs : List α) : upTo isEnd 0 xs = [] := by
  cases xs <;> rfl

theorem upTo_nil (n : Nat) : upTo isEnd n [] = [] := by
  cases n <;> rfl

theorem segments_length (items : List α) (b : β) (xs : List α) :
    (segments isEnd tick items b xs).length = xs.countP isEnd := by
  induction xs generalizing items b with
  | nil => rfl
  | cons x xs ih =>
      -- Only an end mark closes a segment, and only it is counted.
      cases hx : isEnd x with
      | true => rw [segments_end hx, List.length_cons, ih, List.countP_cons_of_pos hx]
      | false => rw [segments_item hx, ih, countP_item hx]

/-- The items of the segments are the same whatever the tally counts. -/
theorem segments_items {γ : Type} {tick' : γ → α → γ} (items : List α) (b : β) (c : γ)
    (xs : List α) : (segments isEnd tick items b xs).map Segment.items
      = (segments isEnd tick' items c xs).map Segment.items := by
  induction xs generalizing items b c with
  | nil => rfl
  | cons x xs ih =>
      cases hx : isEnd x with
      | true =>
          rw [segments_end hx, segments_end hx, List.map_cons, List.map_cons]
          exact congrArg (items :: ·) (ih [] _ _)
      | false =>
          rw [segments_item hx, segments_item hx]
          exact ih _ _ _

/-- And the tallies are the same whatever the items were before. -/
theorem segments_tally_items (items items' : List α) (b : β) (xs : List α) :
    (segments isEnd tick items b xs).map Segment.tally
      = (segments isEnd tick items' b xs).map Segment.tally := by
  induction xs generalizing items items' b with
  | nil => rfl
  | cons x xs ih =>
      cases hx : isEnd x with
      | true => rw [segments_end hx, segments_end hx, List.map_cons, List.map_cons]
      | false =>
          rw [segments_item hx, segments_item hx]
          exact ih _ _ _

theorem tallied_append (b : β) (xs ys : List α) :
    tallied tick b (xs ++ ys) = tallied tick (tallied tick b xs) ys := List.foldl_append

/-- The tally of a segment is the tally of some start moved by its items and
    the end mark. -/
theorem segments_tally {items : List α} {b : β} (b₀ : β) (hb : b = tallied tick b₀ items)
    {xs : List α} {s : Segment α β} (hs : s ∈ segments isEnd tick items b xs) :
    ∃ b₁ x, isEnd x = true ∧ s.tally = tick (tallied tick b₁ s.items) x := by
  induction xs generalizing items b b₀ with
  | nil => exact absurd hs List.not_mem_nil
  | cons x xs ih =>
      cases hx : isEnd x with
      | true =>
          rw [segments_end hx] at hs
          -- The segment closed here has the tally at hand; later ones start afresh behind the mark.
          rcases List.mem_cons.mp hs with rfl | hs
          · exact ⟨b₀, x, hx, by rw [hb]⟩
          · exact ih (tick b x) rfl hs
      | false =>
          rw [segments_item hx] at hs
          refine ih b₀ ?_ hs
          rw [hb, tallied_append]
          rfl

/-- Nothing is left over from a closed chunk. -/
theorem segments_append (items : List α) (b : β) {xs : List α} (hxs : xs ≠ [])
    (hclosed : Closed isEnd xs) (ys : List α) :
    segments isEnd tick items b (xs ++ ys)
      = segments isEnd tick items b xs ++ segments isEnd tick [] (tallied tick b xs) ys := by
  induction xs generalizing items b with
  | nil => exact absurd rfl hxs
  | cons x xs ih =>
      by_cases hlast : xs = []
      · -- The last item is an end mark, so nothing is carried over.
        subst hlast
        have hx : isEnd x = true := hclosed x rfl
        rw [List.singleton_append, segments_end hx, segments_end hx]
        rfl
      · have hrest := closed_tail hclosed
        -- The chunk goes on behind this item, so its end is still to come.
        cases hx : isEnd x with
        | true =>
            rw [List.cons_append, segments_end hx, segments_end hx, ih _ _ hlast hrest,
              List.cons_append]
            rfl
        | false =>
            rw [List.cons_append, segments_item hx, segments_item hx, ih _ _ hlast hrest]
            rfl

/-- When every chunk but the last stops at an end mark, the chunks together
    show the segments of the stream. -/
theorem chunked_eq_segments (b : β) (cs : List (List α))
    (hclosed : ∀ c ∈ cs.dropLast, Closed isEnd c) :
    (chunked isEnd tick b cs).flatten = segments isEnd tick [] b cs.flatten := by
  induction cs generalizing b with
  | nil => rfl
  | cons c cs ih =>
      rw [chunked, List.flatten_cons, List.flatten_cons]
      -- Only the last chunk may stop in the middle of a segment.
      by_cases hlast : cs = []
      · subst hlast
        rw [List.flatten_nil, List.append_nil]
        exact List.append_nil _
      · rw [List.dropLast_cons_of_ne_nil hlast] at hclosed
        rw [ih _ fun c' hc' => hclosed c' (List.mem_cons_of_mem _ hc')]
        by_cases hc : c = []
        · -- An empty chunk is closed, and there is nothing to carry over either.
          subst hc
          rfl
        · rw [segments_append [] b hc (hclosed c List.mem_cons_self)]

/-- Where a chunk has at most `n` end marks, stopping at the `n`-th one loses
    no segment. -/
theorem upTo_of_count_le (items : List α) (b : β) {n : Nat} {xs : List α}
    (hcount : xs.countP isEnd ≤ n) :
    segments isEnd tick items b (upTo isEnd n xs) = segments isEnd tick items b xs := by
  induction xs generalizing items b n with
  | nil => rw [upTo_nil]
  | cons x xs ih =>
      -- The induction is on the chunk; the number goes down at each end mark.
      cases n with
      | zero =>
          -- Without an end mark there is no segment either way.
          have hlength : (segments isEnd tick items b (x :: xs)).length = (x :: xs).countP isEnd :=
            segments_length items b (x :: xs)
          rw [Nat.le_zero.mp hcount] at hlength
          rw [List.eq_nil_of_length_eq_zero hlength]
          rfl
      | succ n =>
          rw [upTo]
          cases hx : isEnd x with
          | true =>
              rw [List.countP_cons_of_pos hx] at hcount
              rw [segments_end hx, segments_end hx, if_pos rfl, ih _ _ (by omega)]
          | false =>
              rw [countP_item hx] at hcount
              rw [segments_item hx, segments_item hx, if_neg Bool.false_ne_true, ih _ _ hcount]

theorem countP_upTo (n : Nat) (xs : List α) :
    (upTo isEnd n xs).countP isEnd = min n (xs.countP isEnd) := by
  induction xs generalizing n with
  | nil =>
      rw [upTo_nil]
      exact (Nat.min_zero n).symm
  | cons x xs ih =>
      cases n with
      | zero =>
          rw [upTo_zero]
          exact (Nat.zero_min _).symm
      | succ n =>
          rw [upTo]
          cases hx : isEnd x with
          | true =>
              rw [List.countP_cons_of_pos hx, List.countP_cons_of_pos hx, if_pos rfl, ih]
              omega
          | false =>
              rw [countP_item hx, countP_item hx, if_neg Bool.false_ne_true, ih]

theorem countP_upTo_le (n : Nat) (xs : List α) : (upTo isEnd n xs).countP isEnd ≤ n := by
  rw [countP_upTo]
  exact Nat.min_le_left n _

/-- Chunks cut off at their `n`-th end mark complete at most `n` segments each. -/
theorem chunked_upTo_length_le {b : β} {n : Nat} {cs : List (List α)}
    {ss : List (Segment α β)} (hss : ss ∈ chunked isEnd tick b (cs.map (upTo isEnd n))) :
    ss.length ≤ n := by
  -- Chunk by chunk: the tally that is carried over has no say in how many there are.
  induction cs generalizing b with
  | nil => exact absurd hss List.not_mem_nil
  | cons c cs ih =>
      rcases List.mem_cons.mp hss with rfl | hss
      · rw [segments_length]
        exact countP_upTo_le n c
      · exact ih hss

/-- A closed chunk with at most `n` end marks stops at the `n`-th at the
    earliest. -/
theorem upTo_eq_self {n : Nat} {xs : List α} (hclosed : Closed isEnd xs)
    (hcount : xs.countP isEnd ≤ n) : upTo isEnd n xs = xs := by
  induction xs generalizing n with
  | nil => exact upTo_nil n
  | cons x xs ih =>
      have hrest := closed_tail hclosed
      cases n with
      | zero =>
          -- The last item is an end mark, so the count is not zero.
          have hlast := List.getLast?_eq_some_getLast (List.cons_ne_nil x xs)
          exact absurd (hclosed _ hlast)
            (List.countP_eq_zero.mp (Nat.le_zero.mp hcount) _ (List.getLast_mem _))
      | succ n =>
          rw [upTo]
          cases hx : isEnd x with
          | true =>
              rw [List.countP_cons_of_pos hx] at hcount
              rw [if_pos rfl, ih hrest (by omega)]
          | false =>
              rw [countP_item hx] at hcount
              rw [if_neg Bool.false_ne_true, ih hrest hcount]

/-- With fewer than `n` end marks a chunk does not stop before its end. -/
theorem upTo_of_count_lt {n : Nat} {xs : List α} (hcount : xs.countP isEnd < n) :
    upTo isEnd n xs = xs := by
  induction xs generalizing n with
  | nil => exact upTo_nil n
  | cons x xs ih =>
      cases n with
      | zero => exact absurd hcount (Nat.not_lt_zero _)
      | succ n =>
          rw [upTo]
          cases hx : isEnd x with
          | true =>
              rw [List.countP_cons_of_pos hx] at hcount
              rw [if_pos rfl, ih (by omega)]
          | false =>
              rw [countP_item hx] at hcount
              rw [if_neg Bool.false_ne_true, ih hcount]

theorem segments_tally_append (items items' : List α) (b : β) (xs ys : List α) :
    (segments isEnd tick items b (xs ++ ys)).map Segment.tally
      = (segments isEnd tick items b xs).map Segment.tally
        ++ (segments isEnd tick items' (tallied tick b xs) ys).map Segment.tally := by
  induction xs generalizing items b with
  | nil => exact segments_tally_items items items' b ys
  | cons x xs ih =>
      cases hx : isEnd x with
      | true =>
          rw [List.cons_append, segments_end hx, segments_end hx, List.map_cons, List.map_cons, ih]
          rfl
      | false =>
          rw [List.cons_append, segments_item hx, segments_item hx, ih]
          rfl

/-- However the stream is cut, the tallies of its segments are the same. -/
theorem chunked_tally (b : β) (cs : List (List α)) :
    (chunked isEnd tick b cs).flatten.map Segment.tally
      = (segments isEnd tick [] b cs.flatten).map Segment.tally := by
  induction cs generalizing b with
  | nil => rfl
  | cons c cs ih =>
      rw [chunked, List.flatten_cons, List.flatten_cons, List.map_append, ih,
        segments_tally_append [] [] b c cs.flatten]

/-- A segment has no end mark among its items. -/
theorem items_not_end {items : List α} (hitems : ∀ x ∈ items, isEnd x = false) {b : β}
    {xs : List α} {s : Segment α β} (hs : s ∈ segments isEnd tick items b xs) :
    ∀ x ∈ s.items, isEnd x = false := by
  induction xs generalizing items b with
  | nil => exact absurd hs List.not_mem_nil
  | cons x xs ih =>
      cases hx : isEnd x with
      | true =>
          -- The items so far are those of the segment that ends here.
          rw [segments_end hx] at hs
          rcases List.mem_cons.mp hs with rfl | hs
          · exact hitems
          · exact ih (fun _ h => absurd h List.not_mem_nil) hs
      | false =>
          rw [segments_item hx] at hs
          -- The item joins the segment because it is no end mark.
          refine ih (fun y hy => ?_) hs
          rcases List.mem_append.mp hy with hy | hy
          · exact hitems y hy
          · rw [List.mem_singleton.mp hy]
            exact hx

/-- Chunks that are cut off at their `n`-th end mark show the segments of the
    stream too, when that cuts nothing off but from the last. -/
theorem chunked_upTo_eq_segments (b : β) (n : Nat) (cs : List (List α))
    (hclosed : ∀ c ∈ cs.dropLast, Closed isEnd c) (hcount : ∀ c ∈ cs, c.countP isEnd ≤ n) :
    (chunked isEnd tick b (cs.map (upTo isEnd n))).flatten
      = segments isEnd tick [] b cs.flatten := by
  rw [← chunked_eq_segments b cs hclosed]
  induction cs generalizing b with
  | nil => rfl
  | cons c cs ih =>
      rw [List.map_cons, chunked, chunked, List.flatten_cons, List.flatten_cons,
        upTo_of_count_le [] b (hcount c List.mem_cons_self)]
      -- In the last chunk nothing is behind the cut; in the others nothing is cut off.
      by_cases hlast : cs = []
      · subst hlast
        rfl
      · rw [List.dropLast_cons_of_ne_nil hlast] at hclosed
        rw [upTo_eq_self (hclosed c List.mem_cons_self) (hcount c List.mem_cons_self),
          ih _ (fun c' hc' => hclosed c' (List.mem_cons_of_mem _ hc'))
            fun c' hc' => hcount c' (List.mem_cons_of_mem _ hc')]

end Segments

end Foundation
