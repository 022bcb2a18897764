import Mathlib.Data.List.Basic

/-!
# Records Read into One Place

Records of one size, written one behind the other into a stream of bytes, and a
reader with room for one of them. Every read brings some of what is in the
stream, no more than there is room for, and lays it over the front of what was
there before. After each read the reader looks at its room, whether or not all
of it is new.

Nothing in the stream says where a record begins. As long as every read fills
the room it holds one record after the other. The first read that brings less
puts all later ones out of step, and even a stream that is read to its end has
then been read in more pieces than it has records. So to look at the records and
nothing else is to have read them whole, and it is enough to count.

## Main definitions

* `overlay`: A read.
* `images`: What the reader looks at.
* `Whole`: Every read fills the room.

## Theorems

* `images_whole`: Whole reads are what is looked at.
* `whole_of_count`: A stream read in no more pieces than it has records.
* `records_of_whole`: Whole reads are records.
-/

namespace Foundation

namespace Overlay

variable {α β : Type}

/-- What a read brings lies over the front of the room. -/
def overlay (room chunk : List β) : List β := chunk ++ room.drop chunk.length

/-- The room after every read. -/
def images (room : List β) : List (List β) → List (List β)
  | [] => []
  | chunk :: chunks => overlay room chunk :: images (overlay room chunk) chunks

/-- Every read fills a room of this size. -/
def Whole (size : Nat) (chunks : List (List β)) : Prop := ∀ chunk ∈ chunks, chunk.length = size

@[simp] theorem images_length (room : List β) (chunks : List (List β)) :
    (images room chunks).length = chunks.length := by
  induction chunks generalizing room with
  | nil => rfl
  | cons chunk chunks ih => simp only [images, List.length_cons, ih]

theorem images_snoc (room : List β) (chunks : List (List β)) (chunk : List β) :
    images room (chunks ++ [chunk])
      = images room chunks ++ [overlay (chunks.foldl overlay room) chunk] := by
  induction chunks generalizing room with
  | nil => rfl
  | cons first chunks ih =>
      simp only [List.cons_append, images, ih, List.foldl_cons]

/-- A read that fills the room leaves nothing of what was there. -/
theorem overlay_whole {room chunk : List β} (h : chunk.length = room.length) :
    overlay room chunk = chunk := by
  unfold overlay
  rw [h, List.drop_length, List.append_nil]

theorem images_whole {room : List β} {chunks : List (List β)}
    (h : Whole room.length chunks) : images room chunks = chunks := by
  induction chunks generalizing room with
  | nil => rfl
  | cons chunk chunks ih =>
      have hchunk := h chunk List.mem_cons_self
      have hrest : Whole chunk.length chunks := by
        intro c hc
        rw [h c (List.mem_cons_of_mem _ hc), hchunk]
      rw [images, overlay_whole hchunk, ih hrest]

/-- As many reads bring no more than there is room for so many times. -/
theorem flatten_length_le {size : Nat} {chunks : List (List β)}
    (hfit : ∀ chunk ∈ chunks, chunk.length ≤ size) :
    chunks.flatten.length ≤ size * chunks.length := by
  induction chunks with
  | nil => exact Nat.zero_le _
  | cons chunk chunks ih =>
      have hfirst := hfit chunk List.mem_cons_self
      have hrest := ih fun c hc => hfit c (List.mem_cons_of_mem _ hc)
      rw [List.flatten_cons, List.length_append, List.length_cons, Nat.mul_succ]
      omega

/-- Pieces that fit into the room, and are together as long as that many records
    or more, are that many at least; and if they are no more they are whole. -/
theorem whole_of_count {size n : Nat} {chunks : List (List β)}
    (hfit : ∀ chunk ∈ chunks, chunk.length ≤ size) (hcount : chunks.length ≤ n)
    (hall : size * n ≤ chunks.flatten.length) : Whole size chunks := by
  induction chunks generalizing n with
  | nil => exact fun chunk hchunk => absurd hchunk List.not_mem_nil
  | cons first chunks ih =>
      have hfirst := hfit first List.mem_cons_self
      have hrest : ∀ chunk ∈ chunks, chunk.length ≤ size :=
        fun chunk hchunk => hfit chunk (List.mem_cons_of_mem _ hchunk)
      rcases n with _ | n
      · exact absurd hcount (Nat.not_succ_le_zero _)
      rw [List.length_cons, Nat.succ_le_succ_iff] at hcount
      rw [List.flatten_cons, List.length_append, Nat.mul_succ] at hall
      have hothers := Nat.le_trans (flatten_length_le hrest) (Nat.mul_le_mul_left size hcount)
      intro chunk hchunk
      rcases List.mem_cons.mp hchunk with rfl | hchunk
      · omega
      · exact ih hrest hcount (by omega) chunk hchunk

variable {size : Nat} {encode : α → List β}

theorem encoded_length (hsize : ∀ a, (encode a).length = size) (records : List α) :
    (records.flatMap encode).length = size * records.length := by
  induction records with
  | nil => rfl
  | cons a records ih =>
      rw [List.flatMap_cons, List.length_append, hsize, ih, List.length_cons, Nat.mul_succ]
      omega

/-- Whole pieces of a stream of records are the records in front. -/
theorem records_of_whole (hpos : 0 < size) (hsize : ∀ a, (encode a).length = size)
    {chunks : List (List β)} (hwhole : Whole size chunks) {records : List α} {rest : List β}
    (hstream : chunks.flatten ++ rest = records.flatMap encode) :
    ∃ later, records = records.take chunks.length ++ later ∧
      chunks = (records.take chunks.length).map encode ∧ rest = later.flatMap encode := by
  induction chunks generalizing records with
  | nil => exact ⟨records, rfl, rfl, hstream⟩
  | cons chunk chunks ih =>
      have hchunk := hwhole chunk List.mem_cons_self
      rcases records with _ | ⟨a, records⟩
      · -- There is at least one byte in a piece.
        have hlength := congrArg List.length hstream
        simp only [List.flatten_cons, List.length_append, List.flatMap_nil, List.length_nil]
          at hlength
        omega
      · rw [List.flatten_cons, List.append_assoc, List.flatMap_cons] at hstream
        rcases List.append_inj hstream (hchunk.trans (hsize a).symm) with ⟨rfl, hlater⟩
        rcases ih (fun c hc => hwhole c (List.mem_cons_of_mem _ hc)) hlater with
          ⟨later, hrecords, hchunks, hrest⟩
        refine ⟨later, ?_, ?_, hrest⟩
        · rw [List.length_cons, List.take_succ_cons, List.cons_append, ← hrecords]
        · rw [List.length_cons, List.take_succ_cons, List.map_cons, ← hchunks]

end Overlay

end Foundation
