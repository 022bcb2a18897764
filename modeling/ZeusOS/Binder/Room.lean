import ZeusOS.Binder.RoundTrip

/-!
# What Fits

A parcel has 1008 bytes and four offset slots. Calls that need no more than
that leave the overflow flag clear, and calls that need more raise it, wherever
in the sequence the room runs out. So whether a request can be sent is decided
by the sizes of its values alone.

## Theorems

* `apply_fits`: A call that finds room and a slot.
* `puts_fits`: A sequence of calls that do.
* `offsets_puts`: Every object written has its offset.
* `puts_clear_iff`: Whether a fresh parcel has room for a sequence of calls.
* `apply_new`, `apply_new_payload`: A single call on a fresh parcel.
* `encodedSize_uint32`, `encodedSize_string8`: The room single values take.
-/

namespace ZeusOS

namespace Binder

open Foundation.Words

/-- What a call leaves that found room. -/
structure Fitted (size slots : Nat) (p p' : Parcel) : Prop where
  writer : Writer p'
  flags : p'.flags = p.flags
  room : p'.dataAvail = p.dataAvail - size
  slots : p'.offsAvail = p.offsAvail - slots

theorem putSegments_fits (segs : List (List UInt8)) (p : Parcel) (hW : Writer p)
    (hsmall : ∀ seg ∈ segs, seg.length + 3 < 2 ^ 31)
    (hroom : ((segs.map fun seg => alignNat seg.length).sum : Int) ≤ p.dataAvail) :
    ∃ p', putSegments segs p = some p' ∧
      Fitted (segs.map fun seg => alignNat seg.length).sum 0 p p' := by
  induction segs generalizing p with
  | nil => exact ⟨p, rfl, hW, rfl, (Int.sub_zero _).symm, (Int.sub_zero _).symm⟩
  | cons seg segs ih =>
      have hseg := hsmall seg List.mem_cons_self
      have hsize : (UInt32.ofNat seg.length).toNat = seg.length := by
        rw [UInt32.toNat_ofNat']
        omega
      rw [List.map_cons, List.sum_cons] at hroom ⊢
      rcases allocCopy_fits p (UInt32.ofNat seg.length) seg hW hsize.symm (by omega)
        (by rw [hsize]; omega) with ⟨q, pad, hq, hpad, happ, _, _, hslots⟩
      -- The cursor moved by the rounded size, and the books say what that leaves.
      have hdata := appended_data p q _ hW happ
      have hqroom := happ.writer.room
      have hproom := hW.room
      rw [hpad] at hdata
      rcases ih q happ.writer (fun s hs => hsmall s (List.mem_cons_of_mem _ hs)) (by omega)
        with ⟨r, hr, hfit⟩
      have hrroom := hfit.room
      refine ⟨r, by rw [putSegments, hq, Option.bind_some, hr], hfit.writer,
        hfit.flags.trans happ.flags, by omega, hfit.slots.trans (by rw [hslots])⟩

theorem putObject_fits (type value : UInt32) (p : Parcel) (hW : Writer p)
    (hroom : 16 ≤ p.dataAvail) (hslot : p.offsAvail ≠ 0) :
    ∃ p', p.bioAllocObj.bind (Parcel.fillObj type value) = some p' ∧ Fitted 16 1 p p' := by
  rcases putObject_stored type value p hW hroom hslot with ⟨r, pad, hr, hpad, happ, _, havail⟩
  -- What is left follows from the books: the payload grew by sixteen bytes.
  have hdata := appended_data p r _ hW happ
  have hproom := hW.room
  have hrroom := happ.writer.room
  rw [hpad] at hdata
  exact ⟨r, hr, happ.writer, happ.flags, by omega, havail⟩

/-- The slots a call takes. -/
def PutOp.slots (op : PutOp) : Nat := if op.isObject then 1 else 0

/-- A call that finds room, and a slot if it needs one, leaves the flags as they
    were. -/
theorem apply_fits (op : PutOp) (p : Parcel) (hW : Writer p)
    (hroom : (op.encodedSize : Int) ≤ p.dataAvail) (hslot : (op.slots : Int) ≤ p.offsAvail) :
    ∃ p', op.apply p = some p' ∧ Fitted op.encodedSize op.slots p p' := by
  unfold PutOp.slots at *
  rcases hobj : op.isObject with _ | _
  -- Without an object only the bytes count.
  · rw [apply_eq_putSegments op p hobj]
    exact putSegments_fits op.segments p hW (segments_small op) hroom
  · rw [object_size op hobj] at hroom ⊢
    rw [hobj] at hslot
    -- An object needs a slot besides its sixteen bytes.
    have hne : p.offsAvail ≠ 0 := by
      intro hzero
      rw [hzero] at hslot
      exact absurd hslot (by decide)
    cases op with
    | uint32 _ | string8 _ | string16 _ | string16X _ =>
        exact absurd hobj (by simp only [PutOp.isObject, Bool.false_eq_true, not_false_eq_true])
    | fd iFd => exact putObject_fits binderTypeFd iFd p hW hroom hne
    | obj ptr => exact putObject_fits binderTypeBinder ptr p hW hroom hne
    | ref iHandle =>
        have hhandle : iHandle ≠ 0 := of_decide_eq_true hobj
        simp only [PutOp.apply, Parcel.putRef, if_pos hhandle]
        exact putObject_fits binderTypeHandle iHandle p hW hroom hne

/-- The slots a list of calls takes. -/
def totalSlots (ops : List PutOp) : Nat := (ops.map PutOp.slots).sum

theorem puts_fits (ops : List PutOp) (p : Parcel) (hW : Writer p)
    (hroom : (totalSize ops : Int) ≤ p.dataAvail) (hslots : (totalSlots ops : Int) ≤ p.offsAvail) :
    ∃ p', puts ops p = some p' ∧ p'.flags = p.flags := by
  induction ops generalizing p with
  | nil => exact ⟨p, rfl, rfl⟩
  | cons op ops ih =>
      have hsize : totalSize (op :: ops) = op.encodedSize + totalSize ops := List.sum_cons
      have hcount : totalSlots (op :: ops) = op.slots + totalSlots ops := List.sum_cons
      -- The room the first call leaves is the room the others were promised.
      rcases apply_fits op p hW (by omega) (by omega) with ⟨q, hq, hfit⟩
      have hqroom := hfit.room
      have hqslots := hfit.slots
      rcases ih q hfit.writer (by omega) (by omega) with ⟨r, hr, hflags⟩
      exact ⟨r, by rw [puts, hq, Option.bind_some, hr], hflags.trans hfit.flags⟩

/-- Every object that was written has its offset. -/
theorem offsets_puts (io : IoData) (ops : List PutOp) :
    ∀ p, puts ops (Parcel.new io) = some p → p.flags.overflow = false →
      p.offsets.length = totalSlots ops := by
  induction ops using List.reverseRecOn with
  | nil =>
      intro p hp _
      simp only [puts, Option.some.injEq] at hp
      rw [← hp, offsets_new]
      rfl
  | append_singleton ops op ih =>
      intro p hp hclear
      rcases puts_snoc ops op _ p (writer_new io) hp hclear with ⟨q, hq, _, hqclear, hwrote⟩
      rcases hwrote.wrote hclear with ⟨_, _, _, hoff⟩
      have hcount : totalSlots (ops ++ [op]) = totalSlots ops + op.slots := by
        rw [totalSlots, totalSlots, List.map_append, List.sum_append, List.map_singleton,
          List.sum_singleton]
      rw [hoff, List.length_append, ih q hq hqclear, hcount, PutOp.slots]
      by_cases hobj : op.isObject = true
      · rw [if_pos hobj, if_pos hobj]
        rfl
      · rw [if_neg hobj, if_neg hobj]
        rfl

/-- A fresh parcel stays clear exactly when there is room for everything. -/
theorem puts_clear_iff {io : IoData} {ops : List PutOp} {p : Parcel}
    (hputs : puts ops (Parcel.new io) = some p) :
    p.flags.overflow = false ↔ totalSize ops ≤ 1008 ∧ totalSlots ops ≤ 4 := by
  have hW := writer_new io
  constructor
  · intro hclear
    rcases writer_puts ops _ hW with ⟨q, hq, hWq, _⟩
    rw [hputs, Option.some.injEq] at hq
    rw [← hq] at hWq
    have hsize := (layout_of_puts io (fun _ v => v) ops p hputs hclear).2.1
    have hcount := offsets_puts io ops p hputs hclear
    have hslots := hWq.slots
    have hfree := hWq.free
    rw [← hsize, ← hcount, offsets_length p hWq]
    exact ⟨payload_length_le p hWq, by omega⟩
  · rintro ⟨hsize, hcount⟩
    have hroom : (Parcel.new io).dataAvail = 1008 := rfl
    have hslots : (Parcel.new io).offsAvail = 4 := rfl
    rcases puts_fits ops _ hW (by omega) (by omega) with ⟨q, hq, hflags⟩
    rw [hputs, Option.some.injEq] at hq
    rw [hq, hflags]
    rfl

/-- A fresh parcel has room for any single value of its size. -/
theorem apply_new (io : IoData) (op : PutOp) (hsize : op.encodedSize ≤ 1008) :
    ∃ p, op.apply (Parcel.new io) = some p ∧ puts [op] (Parcel.new io) = some p ∧
      p.flags.overflow = false := by
  rcases apply_spec op _ (writer_new io) with ⟨p, hp, _⟩
  have hputs : puts [op] (Parcel.new io) = some p := by
    rw [puts, hp]
    rfl
  have htotal : totalSize [op] = op.encodedSize := List.sum_singleton
  have hslots : totalSlots [op] ≤ 4 := by
    change op.slots + 0 ≤ 4
    unfold PutOp.slots
    split <;> decide
  exact ⟨p, hp, hputs, (puts_clear_iff hputs).mpr ⟨htotal.trans_le hsize, hslots⟩⟩

/-- What it leaves there is the pieces of its value. -/
theorem apply_new_payload {io : IoData} {op : PutOp} {p : Parcel} (hsize : op.encodedSize ≤ 1008)
    (h : op.apply (Parcel.new io) = some p) : Padded op.segments p.payload := by
  rcases apply_new io op hsize with ⟨p', hp', hputs, hclear⟩
  rw [h, Option.some.injEq] at hp'
  rw [← hp'] at hputs hclear
  rcases puts_snoc [] op _ p (writer_new io) hputs hclear with ⟨q, hq, _, _, hwrote⟩
  rcases hwrote.wrote hclear with ⟨chunk, hchunk, hpay, _⟩
  rw [puts, Option.some.injEq] at hq
  rw [← hq, payload_new, List.nil_append] at hpay
  rwa [hpay]

theorem encodedSize_uint32 (iVal : UInt32) : (PutOp.uint32 iVal).encodedSize = 4 :=
  encodedSize_word _ iVal rfl

/-- The room a name takes: its length word, and its characters with their
    terminator. -/
theorem encodedSize_string8 (name : CString) (hlen : name.chars.length < 2 ^ 30) :
    (PutOp.string8 (some name)).encodedSize = 4 + alignNat (name.chars.length + 1) := by
  have hlim := not_ge_of_lt name.chars.length (maxBioSize / 1)
    (by rw [maxBioSize_div_one]; exact hlen)
  have hword : alignNat 4 = 4 := rfl
  simp only [PutOp.encodedSize, PutOp.segments, Option.map_some, PutOp.stringSegments, if_neg hlim,
    List.map_cons, List.map_nil, List.sum_cons, List.sum_nil, le32_length, List.length_append,
    List.length_singleton, Nat.add_zero, hword]

end Binder

end ZeusOS
