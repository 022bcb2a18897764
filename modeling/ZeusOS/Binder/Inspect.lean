import ZeusOS.Binder.Parcel

/-!
# Reading Whatever Arrives

The getters on a message nobody vouches for. Nothing is known about its bytes,
and its size is any word at all, so the room left is followed as the word that
`get` compares it as. A successful `get` takes its bytes from that room; a
failed one leaves no room at all, and from then on only a request for nothing
can succeed.

The rest of the record is the same after any getter. In particular the flag
and the address by which a received buffer is given back survive.

The cursor, for its part, goes wherever the sizes in the message send it, but
never past the end. So an object that a getter finds lies in the message, and
at an offset the driver was told about: a handle or a descriptor that is not
zero cannot be made of plain bytes.

## Main definitions

* `room`: The room left, as `get` sees it.
* `SameBuffer`: The fields no getter touches.
* `HasObject`: An object of a message.
* `Inside`: A parcel that reads a message within its bounds.

## Theorems

* `get_cases`: What `get` does.
* `getUint32_cases`: A word read from the message, or zero and no room.
* `getObj_cases`, `getObjOf_cases`: An object, and the value of one.
* `getString_some`: Where a string that was handed out lies.
* `getUint32_same`, `getRef_same`: The getters keep the buffer.
* `init_inside`, `getUint32_inside`, `getString_inside`: Reading stays inside.
* `getObjOf_found`: What is found is an object of the message.
-/

namespace ZeusOS

namespace Binder

open Foundation.Words

/-- The room left in a message, as `get` sees it. -/
def Parcel.room (p : Parcel) : UInt32 := toUnsigned p.dataAvail

/-- The parcel a failed `get` leaves behind. -/
def Parcel.exhausted (p : Parcel) : Parcel := { p.setOverflow with dataAvail := 0 }

@[simp] theorem exhausted_room (p : Parcel) : p.exhausted.room = 0 := rfl

@[simp] theorem advance_room (p : Parcel) (size : UInt32) :
    (p.advance size).room = p.room - size := by
  rw [Parcel.room, Parcel.advance, toUnsigned_toInt]
  rfl

@[simp] theorem init_room (mem : Mapping) (txn : Txn) :
    (Parcel.bioInitFromTxn mem txn).room = txn.dataSize := by
  rw [Parcel.room, Parcel.bioInitFromTxn, toUnsigned_toInt]

-- Compared as words, so a size that wraps around to nothing always fits.
theorem get_cases (p : Parcel) (size : UInt32) :
    (p.room < Parcel.alignSize size ∧ p.get size = (none, p.exhausted)) ∨
      (Parcel.alignSize size ≤ p.room ∧
        p.get size = (some p.data, p.advance (Parcel.alignSize size))) := by
  unfold Parcel.room Parcel.get
  by_cases h : toUnsigned p.dataAvail < Parcel.alignSize size
  · rw [if_pos h]
    exact Or.inl ⟨h, rfl⟩
  · rw [if_neg h]
    exact Or.inr ⟨UInt32.not_lt.mp h, rfl⟩

/-- A word read from the message, or zero and no room left. -/
theorem getUint32_cases {p p' : Parcel} {w : UInt32} (h : p.getUint32 = some (w, p')) :
    (p.room < 4 ∧ w = 0 ∧ p' = p.exhausted) ∨
      (4 ≤ p.room ∧ load32 (p.buf.drop p.data) = some w ∧ p' = p.advance 4) := by
  -- Without room for a word there is a zero, which nobody sent.
  rcases get_cases p 4 with ⟨hroom, hget⟩ | ⟨hroom, hget⟩
  · rw [Parcel.getUint32, hget] at h
    simp only [Option.some.injEq, Prod.mk.injEq] at h
    exact Or.inl ⟨hroom, h.1.symm, h.2.symm⟩
  · rw [Parcel.getUint32, hget] at h
    simp only [Option.map_eq_some_iff, Prod.mk.injEq] at h
    rcases h with ⟨_, hload, rfl, rfl⟩
    exact Or.inr ⟨hroom, hload, rfl⟩

theorem getString_cases {p p' : Parcel} {unit : UInt32} {ptr : Option Nat} {len : UInt32}
    (h : p.getString unit = some ((ptr, len), p')) :
    ∃ q, p.getUint32 = some (len, q) ∧ q.get ((len + 1) * unit) = (ptr, p') := by
  rw [Parcel.getString, Option.map_eq_some_iff] at h
  rcases h with ⟨⟨len', q⟩, hlen, heq⟩
  simp only [Prod.mk.injEq] at heq
  rcases heq with ⟨⟨hptr, rfl⟩, hq⟩
  exact ⟨q, hlen, Prod.ext hptr hq⟩

/-- A string that was handed out follows its length word, and both lie in the
    room there was. -/
theorem getString_some {p p' : Parcel} {unit : UInt32} {ptr : Nat} {len : UInt32}
    (hunit : ¬ Parcel.alignSize ((0 + 1) * unit) ≤ 0)
    (h : p.getString unit = some ((some ptr, len), p')) :
    load32 (p.buf.drop p.data) = some len ∧ ptr = p.data + 4 ∧ 4 ≤ p.room ∧
      Parcel.alignSize ((len + 1) * unit) ≤ p.room - 4 ∧
        p' = (p.advance 4).advance (Parcel.alignSize ((len + 1) * unit)) := by
  rcases getString_cases h with ⟨q, hlen, hget⟩
  rcases getUint32_cases hlen with ⟨_, rfl, rfl⟩ | ⟨hroom, hload, rfl⟩
  · -- A missing length word is a zero length, and even that string needs room.
    rcases get_cases p.exhausted ((0 + 1) * unit) with ⟨_, hnone⟩ | ⟨hle, _⟩
    · rw [hnone] at hget
      cases hget
    · exact absurd hle (by rw [exhausted_room]; exact hunit)
  · -- The string is taken from behind the word, or not at all.
    rcases get_cases (p.advance 4) ((len + 1) * unit) with ⟨_, hnone⟩ | ⟨hle, hsome⟩
    · rw [hnone] at hget
      cases hget
    · rw [hsome] at hget
      simp only [Prod.mk.injEq, Option.some.injEq] at hget
      rcases hget with ⟨rfl, rfl⟩
      rw [advance_room] at hle
      exact ⟨hload, rfl, hroom, hle, rfl⟩

theorem getString8_some {p p' : Parcel} {ptr : Nat} {len : UInt32}
    (h : p.getString8 = some ((some ptr, len), p')) :
    load32 (p.buf.drop p.data) = some len ∧ ptr = p.data + 4 ∧ p'.buf = p.buf ∧
      4 ≤ p.room ∧ Parcel.alignSize (len + 1) ≤ p.room - 4 := by
  rcases getString_some (by decide) h with ⟨hload, hptr, hroom, hfits, rfl⟩
  rw [UInt32.mul_one] at hfits
  exact ⟨hload, hptr, rfl, hroom, hfits⟩

/-- The fields no getter touches. -/
structure SameBuffer (p p' : Parcel) : Prop where
  data0 : p'.data0 = p.data0
  shared : p'.flags.shared = p.flags.shared

theorem getUint32_same {p p' : Parcel} {w : UInt32} (h : p.getUint32 = some (w, p')) :
    SameBuffer p p' := by
  rcases getUint32_cases h with ⟨_, _, rfl⟩ | ⟨_, _, rfl⟩
  · exact ⟨rfl, rfl⟩
  · exact ⟨rfl, rfl⟩

/-- An object is handed out at the cursor if it is listed and there is room for
    it; otherwise the reading ends. -/
theorem getObj_cases {p p' : Parcel} {obj : Option Nat} (h : p.getObj = some (obj, p')) :
    (obj = none ∧ p' = p.exhausted) ∨
      (obj = some p.data ∧ p' = p.advance 16 ∧ 16 ≤ p.room ∧
        Parcel.searchOffs (UInt32.ofNat p.data) p.offsAvail.toNat (p.tab.drop p.offs)
          = some true) := by
  rw [Parcel.getObj, Option.map_eq_some_iff] at h
  rcases h with ⟨found, hfound, heq⟩
  by_cases htrue : found = true
  · rw [if_pos htrue] at heq
    -- The room for the sixteen bytes may still be missing.
    rcases get_cases p 16 with ⟨_, hget⟩ | ⟨hroom, hget⟩
    · rw [hget, Prod.mk.injEq] at heq
      exact Or.inl ⟨heq.1.symm, heq.2.symm⟩
    · rw [hget, Prod.mk.injEq] at heq
      exact Or.inr ⟨heq.1.symm, heq.2.symm, hroom, by rw [hfound, htrue]⟩
  · rw [if_neg htrue, Prod.mk.injEq] at heq
    exact Or.inl ⟨heq.1.symm, heq.2.symm⟩

/-- A value that is not zero stands in an object of the type asked for, and no
    more than the object is taken. -/
theorem getObjOf_cases {p p' : Parcel} {type v : UInt32} (h : p.getObjOf type = some (v, p')) :
    ∃ obj, p.getObj = some (obj, p') ∧
      (v ≠ 0 → ∃ off, obj = some off ∧ load32 (p'.buf.drop off) = some type ∧
        load32 (p'.buf.drop (off + 8)) = some v) := by
  rw [Parcel.getObjOf, Option.bind_eq_some_iff] at h
  rcases h with ⟨⟨obj, q⟩, hobj, h⟩
  cases obj with
  | none =>
      simp only [Option.some.injEq, Prod.mk.injEq] at h
      rcases h with ⟨rfl, rfl⟩
      exact ⟨none, hobj, fun hne => absurd rfl hne⟩
  | some off =>
      simp only [Option.bind_eq_some_iff] at h
      rcases h with ⟨t, htype, h⟩
      by_cases ht : t = type
      · simp only [if_pos ht, Option.map_eq_some_iff, Prod.mk.injEq] at h
        rcases h with ⟨_, hvalue, rfl, rfl⟩
        rw [ht] at htype
        exact ⟨some off, hobj, fun _ => ⟨off, rfl, htype, hvalue⟩⟩
      · -- An object of another type counts for nothing.
        simp only [if_neg ht, Option.some.injEq, Prod.mk.injEq] at h
        rcases h with ⟨rfl, rfl⟩
        exact ⟨some off, hobj, fun hne => absurd rfl hne⟩

theorem getObj_same {p p' : Parcel} {ptr : Option Nat} (h : p.getObj = some (ptr, p')) :
    SameBuffer p p' := by
  rcases getObj_cases h with ⟨_, rfl⟩ | ⟨_, rfl, _, _⟩
  · exact ⟨rfl, rfl⟩
  · exact ⟨rfl, rfl⟩

theorem getRef_same {p p' : Parcel} {w : UInt32} (h : p.getRef = some (w, p')) :
    SameBuffer p p' := by
  rcases getObjOf_cases h with ⟨obj, hobj, _⟩
  exact getObj_same hobj

/-- An object of this type and value lies in the payload of a message, at an
    offset listed in its offsets array. -/
def HasObject (mem : Mapping) (txn : Txn) (type value : UInt32) : Prop :=
  ∃ off, off + 16 ≤ txn.dataSize.toNat ∧
    UInt32.ofNat off ∈ (mem.words txn.offsets).take (txn.offsetsSize / 4).toNat ∧
      load32 ((mem.bytes txn.buffer).drop off) = some type ∧
        load32 ((mem.bytes txn.buffer).drop (off + 8)) = some value

/-- The parcel reads this message, and has as much room as there is left of
    it at most. -/
structure Inside (mem : Mapping) (txn : Txn) (p : Parcel) : Prop where
  buf : p.buf = mem.bytes txn.buffer
  table : p.tab.drop p.offs = mem.words txn.offsets
  listed : p.offsAvail.toNat = (txn.offsetsSize / 4).toNat
  extent : p.data + p.room.toNat ≤ txn.dataSize.toNat

theorem init_inside (mem : Mapping) (txn : Txn) : Inside mem txn (Parcel.bioInitFromTxn mem txn) := by
  refine ⟨rfl, rfl, ?_, ?_⟩
  · -- A quarter of a word is small enough to be the same as an `int`.
    have hquarter : (txn.offsetsSize / 4).toNat = txn.offsetsSize.toNat / 4 := UInt32.toNat_div _ _
    have hlt := txn.offsetsSize.toNat_lt
    simp only [Parcel.bioInitFromTxn]
    rw [toInt_of_lt _ (by omega), Int.toNat_natCast]
  · rw [init_room]
    exact Nat.le_of_eq (Nat.zero_add _)

variable {mem : Mapping} {txn : Txn}

theorem exhausted_inside {p : Parcel} (h : Inside mem txn p) : Inside mem txn p.exhausted := by
  refine ⟨h.buf, h.table, h.listed, ?_⟩
  rw [exhausted_room]
  exact Nat.le_trans (Nat.add_le_add_left (Nat.zero_le _) _) h.extent

-- What is taken from the room is put before the cursor.
theorem advance_inside {p : Parcel} {size : UInt32} (h : Inside mem txn p) (hroom : size ≤ p.room) :
    Inside mem txn (p.advance size) := by
  refine ⟨h.buf, h.table, h.listed, ?_⟩
  have hextent := h.extent
  rw [advance_room, UInt32.toNat_sub_of_le _ _ hroom]
  rw [UInt32.le_iff_toNat_le] at hroom
  simp only [Parcel.advance]
  omega

theorem get_inside {p : Parcel} (size : UInt32) (h : Inside mem txn p) :
    Inside mem txn (p.get size).2 := by
  rcases get_cases p size with ⟨_, hget⟩ | ⟨hroom, hget⟩
  · rw [hget]
    exact exhausted_inside h
  · rw [hget]
    exact advance_inside h hroom

theorem getUint32_inside {p p' : Parcel} {w : UInt32} (h : Inside mem txn p)
    (hget : p.getUint32 = some (w, p')) : Inside mem txn p' := by
  rcases getUint32_cases hget with ⟨_, _, rfl⟩ | ⟨hroom, _, rfl⟩
  · exact exhausted_inside h
  · exact advance_inside h hroom

theorem getString_inside {p p' : Parcel} {unit : UInt32} {ptr : Option Nat} {len : UInt32}
    (h : Inside mem txn p) (hget : p.getString unit = some ((ptr, len), p')) :
    Inside mem txn p' := by
  rcases getString_cases hget with ⟨q, hlen, hptr⟩
  have := get_inside ((len + 1) * unit) (getUint32_inside h hlen)
  rwa [hptr] at this

/-- An entry that was found is among those that were looked at. -/
theorem searchOffs_some_true {off : UInt32} {n : Nat} {tab : List UInt32}
    (h : Parcel.searchOffs off n tab = some true) : off ∈ tab.take n := by
  induction n generalizing tab with
  | zero =>
      simp only [Parcel.searchOffs, Option.some.injEq, Bool.false_eq_true] at h
  | succ n ih =>
      cases tab with
      | nil => simp only [Parcel.searchOffs, reduceCtorEq] at h
      | cons entry rest =>
          rw [List.take_succ_cons]
          -- The search ends at the entry or goes on behind it.
          by_cases heq : entry = off
          · rw [heq]
            exact List.mem_cons_self
          · simp only [Parcel.searchOffs, if_neg heq] at h
            exact List.mem_cons_of_mem _ (ih h)

/-- An object that is handed out starts at the cursor, which is a listed offset,
    and lies in the message. -/
theorem getObj_found {p p' : Parcel} {obj : Option Nat} (h : Inside mem txn p)
    (hget : p.getObj = some (obj, p')) :
    Inside mem txn p' ∧ ∀ off, obj = some off → off + 16 ≤ txn.dataSize.toNat ∧
      UInt32.ofNat off ∈ (mem.words txn.offsets).take (txn.offsetsSize / 4).toNat := by
  rcases getObj_cases hget with ⟨rfl, rfl⟩ | ⟨rfl, rfl, hroom, hfound⟩
  · exact ⟨exhausted_inside h, fun off hoff =>
      absurd hoff (by simp only [reduceCtorEq, not_false_eq_true])⟩
  · refine ⟨advance_inside h hroom, fun off hoff => ?_⟩
    rw [h.table, h.listed] at hfound
    rw [Option.some.injEq] at hoff
    subst hoff
    -- The sixteen bytes are taken from the room, which ends where the message does.
    have hextent := h.extent
    rw [UInt32.le_iff_toNat_le] at hroom
    change 16 ≤ _ at hroom
    exact ⟨by omega, searchOffs_some_true hfound⟩

/-- The value of an object is zero or stands in an object of the message. -/
theorem getObjOf_found {p p' : Parcel} {type v : UInt32} (h : Inside mem txn p)
    (hget : p.getObjOf type = some (v, p')) :
    Inside mem txn p' ∧ (v ≠ 0 → HasObject mem txn type v) := by
  rcases getObjOf_cases hget with ⟨obj, hobj, hvalue⟩
  rcases getObj_found h hobj with ⟨hp', hlies⟩
  refine ⟨hp', fun hne => ?_⟩
  rcases hvalue hne with ⟨off, rfl, ht, hv⟩
  rcases hlies off rfl with ⟨hend, hlisted⟩
  rw [hp'.buf] at ht hv
  exact ⟨off, hend, hlisted, ht, hv⟩

end Binder

end ZeusOS
