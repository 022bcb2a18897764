import ZeusOS.Binder.Room

/-!
# Filling a Parcel

What a parcel is like after any calls at all, whether or not they fit. A call
that does not fit may still have taken some room: a string leaves its length
word when there is no place for the characters, and an object that finds room
but no slot takes the room. Later calls then go on behind it.

In spite of that nothing is ever written over, nothing is written at or behind
the cursor, and every offset that is recorded is where an object was stored. So
the offsets increase, by the size of an object at least.

## Main definitions

* `PutOp.wireSize`: The room a call takes, by its argument.
* `Grown`: What a call may do to a parcel.
* `Recorded`: The recorded offsets start objects that do not overlap.

## Theorems

* `wireSize_eq`: The room is that of the pieces.
* `allocCopy_grown`, `putObject_grown`: Writing a piece, or an object.
* `apply_grown`: One call, whether or not it fits.
* `puts_recorded`: A sequence of calls.
* `filling_exact`: When the overflow flag is up, and what holds in any case.
-/

namespace ZeusOS

namespace Binder

open Foundation.Words

/-- The room a string takes: its length word and, below the limit, its
    characters with their terminator. -/
def stringSize (unit limit : Nat) : Option Nat → Nat
  | none => 4
  | some n => if n < limit then 4 + alignNat (unit * (n + 1)) else 4

/-- The room a call takes. -/
def PutOp.wireSize : PutOp → Nat
  | uint32 _ => 4
  | string8 str => stringSize 1 (2 ^ 30) (str.map fun s => s.chars.length)
  | string16 str => stringSize 2 (2 ^ 29) (str.map fun s => s.units.length)
  | string16X str => stringSize 2 (2 ^ 29) (str.map fun s => s.chars.length)
  | fd _ => 16
  | obj _ => 16
  | ref _ => 16

theorem stringSegments_size {unit : UInt32} {n limit : Nat} {bytes : List UInt8}
    (hn : n < 2 ^ 32) (hlimit : (maxBioSize / unit).toNat = limit)
    (hbytes : bytes.length = unit.toNat * (n + 1)) :
    ((PutOp.stringSegments unit (some (UInt32.ofNat n, bytes))).map
      fun seg => alignNat seg.length).sum = stringSize unit.toNat limit (some n) := by
  have hword : alignNat 4 = 4 := rfl
  simp only [PutOp.stringSegments, stringSize]
  by_cases hlong : UInt32.ofNat n ≥ maxBioSize / unit
  · have hge := hlong
    rw [ge_iff_le, UInt32.le_iff_toNat_le, hlimit, UInt32.toNat_ofNat_of_lt' hn] at hge
    rw [if_pos hlong, if_neg (by omega), List.map_singleton, List.sum_singleton, le32_length, hword]
  · have hlt := ofNat_lt_of_not_ge n _ hn hlong
    rw [hlimit] at hlt
    rw [if_neg hlong, if_pos hlt, List.map_cons, List.map_singleton, List.sum_cons,
      List.sum_singleton, le32_length, hword, hbytes]

theorem units_length (units : List UInt16) :
    ((units ++ [0]).flatMap le16).length = (2 : UInt32).toNat * (units.length + 1) := by
  rw [flatMap_le16_length, List.length_append, List.length_singleton]
  rfl

/-- The room a call takes is that of its pieces. -/
theorem wireSize_eq (op : PutOp) : op.encodedSize = op.wireSize := by
  cases op with
  | uint32 iVal => exact encodedSize_word _ iVal rfl
  | fd iFd => exact encodedSize_flatObject _ binderTypeFd iFd rfl
  | obj ptr => exact encodedSize_flatObject _ binderTypeBinder ptr rfl
  | ref iHandle => exact encodedSize_flatObject _ binderTypeHandle iHandle rfl
  | string8 str =>
      cases str with
      | none => exact encodedSize_word _ _ rfl
      | some s =>
          refine stringSegments_size s.fits maxBioSize_div_one ?_
          rw [List.length_append, List.length_singleton]
          exact (Nat.one_mul _).symm
  | string16 str =>
      cases str with
      | none => exact encodedSize_word _ _ rfl
      | some s => exact stringSegments_size s.fits maxBioSize_div_two (units_length _)
  | string16X str =>
      cases str with
      | none => exact encodedSize_word _ _ rfl
      | some s =>
          refine stringSegments_size s.fits maxBioSize_div_two ?_
          rw [units_length, List.length_map]

/-- What a call may do to a parcel, fitting or not: the cursor moves on, the
    payload is only lengthened, and nothing behind the cursor changes. -/
structure Grown (p p' : Parcel) : Prop where
  writer : Writer p'
  data0 : p'.data0 = p.data0
  offs0 : p'.offs0 = p.offs0
  payload : p.payload <+: p'.payload
  offsets : p.offsets <+: p'.offsets
  behind : ∀ i, p'.data ≤ i → p'.buf[i]? = p.buf[i]?
  slotsBehind : ∀ i, p'.offs ≤ i → p'.tab[i]? = p.tab[i]?

theorem grown_refl {p : Parcel} (hW : Writer p) : Grown p p :=
  ⟨hW, rfl, rfl, List.prefix_refl _, List.prefix_refl _, fun _ _ => rfl, fun _ _ => rfl⟩

theorem grown_data {p p' : Parcel} (hW : Writer p) (h : Grown p p') : p.data ≤ p'.data := by
  have hlen := h.payload.length_le
  rwa [payload_length p hW, payload_length p' h.writer] at hlen

theorem grown_offs {p p' : Parcel} (hW : Writer p) (h : Grown p p') : p.offs ≤ p'.offs := by
  have hlen := h.offsets.length_le
  rwa [offsets_length p hW, offsets_length p' h.writer] at hlen

theorem grown_trans {p q r : Parcel} (hpq : Grown p q) (hqr : Grown q r) : Grown p r := by
  have hdata := grown_data hpq.writer hqr
  have hoffs := grown_offs hpq.writer hqr
  refine ⟨hqr.writer, hqr.data0.trans hpq.data0, hqr.offs0.trans hpq.offs0,
    hpq.payload.trans hqr.payload, hpq.offsets.trans hqr.offsets, fun i hi => ?_, fun i hi => ?_⟩
  · rw [hqr.behind i hi, hpq.behind i (by omega)]
  · rw [hqr.slotsBehind i hi, hpq.slotsBehind i (by omega)]

theorem grown_setOverflow {p : Parcel} (hW : Writer p) : Grown p p.setOverflow :=
  ⟨writer_setOverflow p hW, rfl, rfl, List.prefix_refl _, List.prefix_refl _, fun _ _ => rfl,
    fun _ _ => rfl⟩

/-- Writing a piece, or finding no room for it. -/
theorem allocCopy_grown (p : Parcel) (size : UInt32) (bytes : List UInt8) (hW : Writer p)
    (hlen : bytes.length = size.toNat) (hs : size.toNat + 3 < 2 ^ 31) :
    ∃ p', p.allocCopy size bytes = some p' ∧ Grown p p' ∧ p'.offsets = p.offsets := by
  by_cases hfit : (alignNat size.toNat : Int) ≤ p.dataAvail
  · rcases allocCopy_fits p size bytes hW hlen hs hfit with ⟨p', pad, hp', _, happ, htab, hoffs, _⟩
    have hspec := alignNat_spec size.toNat
    have hroom := hW.room
    have harea := hW.area
    have hoffsets : p'.offsets = p.offsets := by
      rw [Parcel.offsets, Parcel.offsets, htab, hoffs]
    -- The record is the old one with the room taken and the bytes stored.
    have hstored := hp'
    have hle : p.data + bytes.length ≤ p.buf.length := by omega
    rw [Parcel.allocCopy, bioAlloc_fits p size hW hs hfit] at hstored
    simp only [Parcel.store, if_pos hle, Option.some.injEq] at hstored
    subst hstored
    refine ⟨_, hp', ⟨happ.writer, rfl, rfl, ⟨_, happ.payload.symm⟩, List.prefix_refl _,
      fun i hi => ?_, fun _ _ => rfl⟩, hoffsets⟩
    simp only at hi
    exact getElem?_splice_of_not_mem _ _ _ _ (Or.inr (by omega)) hle
  · exact ⟨_, allocCopy_full p size bytes hs (by omega), grown_setOverflow hW, rfl⟩

theorem putSegments_grown (segs : List (List UInt8)) (p : Parcel) (hW : Writer p)
    (hsmall : ∀ seg ∈ segs, seg.length + 3 < 2 ^ 31) :
    ∃ p', putSegments segs p = some p' ∧ Grown p p' ∧ p'.offsets = p.offsets := by
  induction segs generalizing p with
  | nil => exact ⟨p, rfl, grown_refl hW, rfl⟩
  | cons seg segs ih =>
      have hseg := hsmall seg List.mem_cons_self
      have hsize : seg.length = (UInt32.ofNat seg.length).toNat := by
        rw [UInt32.toNat_ofNat']
        omega
      rcases allocCopy_grown p _ seg hW hsize (by omega) with ⟨q, hq, hgrown, hoffs⟩
      rcases ih q hgrown.writer (fun s hs => hsmall s (List.mem_cons_of_mem _ hs))
        with ⟨r, hr, hrest, hoffs'⟩
      exact ⟨r, by rw [putSegments, hq, Option.bind_some, hr], grown_trans hgrown hrest,
        hoffs'.trans hoffs⟩

/-- The offset of a stored object was recorded. -/
def Stored (p p' : Parcel) : Prop :=
  p'.offsets = p.offsets ++ [UInt32.ofNat p.data] ∧
    ∃ type value, Parcel.flatObject type value <+: p'.payload.drop p.data

theorem stored_splice {α : Type} {seg : List α} {off n : Nat} {old : List α}
    (hn : off + seg.length ≤ n) (h : off + seg.length ≤ old.length) :
    seg <+: ((splice off seg old).take n).drop off := by
  have hself := prefix_splice_self off seg old h
  rw [List.drop_take, List.prefix_iff_eq_take, List.take_take, Nat.min_eq_left (by omega)]
  exact List.prefix_iff_eq_take.mp hself

/-- An object that is stored leaves everything else as it was. -/
theorem putObject_stored_grown (type value : UInt32) (p : Parcel) (hW : Writer p)
    (hfit : 16 ≤ p.dataAvail) (hslot : p.offsAvail ≠ 0) :
    ∃ p', p.bioAllocObj.bind (Parcel.fillObj type value) = some p' ∧ Grown p p' ∧ Stored p p' := by
  have hroom := hW.room
  have hslots := hW.slots
  have hfree := hW.free
  have harea := hW.area
  have htable := hW.table
  have halign : alignNat (16 : UInt32).toNat = 16 := rfl
  have halloc := bioAlloc_fits p 16 hW (by decide) (by rw [halign]; exact hfit)
  rw [halign] at halloc
  rcases putObject_stored type value p hW hfit hslot with ⟨r, pad, hr, _, happ, hoff, _⟩
  -- The record is the old one with the offset pushed and the object stored.
  have hstored := hr
  have hle : p.data + (Parcel.flatObject type value).length ≤ p.buf.length := by
    rw [flatObject_length]
    omega
  have hoffs : p.offs < p.tab.length := by omega
  simp only [Parcel.bioAllocObj, halloc, hslot, ne_eq, not_false_eq_true, if_true,
    Parcel.pushOffset, if_pos hoffs, Option.map_some, Option.bind_some, Parcel.fillObj,
    Nat.cast_ofNat, Parcel.store, if_pos hle, Option.some.injEq] at hstored
  subst hstored
  refine ⟨_, hr, ⟨happ.writer, rfl, rfl, ⟨_, happ.payload.symm⟩, ⟨_, hoff.symm⟩,
    fun i hi => ?_, fun i hi => ?_⟩, hoff, type, value, ?_⟩
  · simp only at hi
    exact getElem?_splice_of_not_mem _ _ _ _ (Or.inr (by rw [flatObject_length]; omega)) hle
  · simp only at hi
    exact List.getElem?_set_ne (by omega)
  · exact stored_splice (Nat.le_refl _) hle

/-- Writing an object, or finding no room or no slot for it. -/
theorem putObject_grown (type value : UInt32) (p : Parcel) (hW : Writer p) :
    ∃ p', p.bioAllocObj.bind (Parcel.fillObj type value) = some p' ∧ Grown p p' ∧
      (p'.offsets = p.offsets ∨ Stored p p') := by
  by_cases hfit : 16 ≤ p.dataAvail ∧ p.offsAvail ≠ 0
  · rcases putObject_stored_grown type value p hW hfit.1 hfit.2 with ⟨p', hp', hgrown, hstored⟩
    exact ⟨p', hp', hgrown, Or.inr hstored⟩
  · rcases putObject_unstored type value p hW hfit with ⟨q, hq, hWq, rfl | rfl⟩
    · exact ⟨q.setOverflow, hq, grown_setOverflow hW, Or.inl rfl⟩
    · -- The room that was lost holds what it held.
      have hgrown : Grown p { p with data := p.data + 16, dataAvail := p.dataAvail - 16 } :=
        ⟨hWq, rfl, rfl, List.take_prefix_take_left (Nat.le_add_right _ _), List.prefix_refl _,
          fun _ _ => rfl, fun _ _ => rfl⟩
      exact ⟨_, hq, grown_trans hgrown (grown_setOverflow hWq), Or.inl rfl⟩

/-- One call, whether or not it fits. -/
theorem apply_grown (op : PutOp) (p : Parcel) (hW : Writer p) :
    ∃ p', op.apply p = some p' ∧ Grown p p' ∧ (p'.offsets = p.offsets ∨ Stored p p') := by
  rcases hobj : op.isObject with _ | _
  · rw [apply_eq_putSegments op p hobj]
    rcases putSegments_grown op.segments p hW (segments_small op) with ⟨p', hp', hgrown, hoffs⟩
    exact ⟨p', hp', hgrown, Or.inl hoffs⟩
  · cases op with
    | uint32 _ | string8 _ | string16 _ | string16X _ =>
        simp only [PutOp.isObject, Bool.false_eq_true] at hobj
    | fd iFd => exact putObject_grown binderTypeFd iFd p hW
    | obj ptr => exact putObject_grown binderTypeBinder ptr p hW
    | ref iHandle =>
        have hhandle : iHandle ≠ 0 := of_decide_eq_true hobj
        simp only [PutOp.apply, Parcel.putRef, if_pos hhandle]
        exact putObject_grown binderTypeHandle iHandle p hW

/-- The recorded offsets are multiples of four, one object apart at least, and
    an object stands at each of them. -/
structure Recorded (p : Parcel) : Prop where
  apart : p.offsets.Pairwise fun o o' => o.toNat + 16 ≤ o'.toNat
  objects : ∀ o ∈ p.offsets, o.toNat % 4 = 0 ∧ o.toNat + 16 ≤ p.data ∧
    ∃ type value, Parcel.flatObject type value <+: p.payload.drop o.toNat

theorem recorded_new (io : IoData) : Recorded (Parcel.new io) := by
  refine ⟨?_, fun o ho => ?_⟩
  · rw [offsets_new]
    exact List.Pairwise.nil
  · rw [offsets_new] at ho
    exact absurd ho List.not_mem_nil

/-- What was recorded still stands, and a new offset lies behind all others. -/
theorem recorded_grown {p p' : Parcel} (hW : Writer p) (hrec : Recorded p) (hgrown : Grown p p')
    (hoffs : p'.offsets = p.offsets ∨ Stored p p') : Recorded p' := by
  have hdata := grown_data hW hgrown
  have hkept : ∀ o ∈ p.offsets, o.toNat % 4 = 0 ∧ o.toNat + 16 ≤ p'.data ∧
      ∃ type value, Parcel.flatObject type value <+: p'.payload.drop o.toNat := by
    intro o ho
    rcases hrec.objects o ho with ⟨hmod, hend, type, value, hstands⟩
    exact ⟨hmod, by omega, type, value, hstands.trans (drop_prefix_drop hgrown.payload _)⟩
  rcases hoffs with hsame | ⟨hnew, type, value, hstands⟩
  · refine ⟨by rw [hsame]; exact hrec.apart, fun o ho => ?_⟩
    rw [hsame] at ho
    exact hkept o ho
  · have hroom := hW.room
    have havail := hW.avail
    have hpos : (UInt32.ofNat p.data).toNat = p.data := by
      rw [UInt32.toNat_ofNat']
      omega
    -- The object was stored at the old cursor, so it ends before the new one.
    have hlen := hstands.length_le
    rw [flatObject_length, List.length_drop, payload_length p' hgrown.writer] at hlen
    refine ⟨?_, fun o ho => ?_⟩
    · rw [hnew, List.pairwise_append]
      refine ⟨hrec.apart, List.pairwise_singleton _ _, fun o ho o' ho' => ?_⟩
      rw [List.mem_singleton.mp ho', hpos]
      exact (hrec.objects o ho).2.1
    · rw [hnew] at ho
      rcases List.mem_append.mp ho with hold | hlast
      · exact hkept o hold
      · rw [List.mem_singleton.mp hlast, hpos]
        exact ⟨hW.aligned, by omega, type, value, hstands⟩

theorem puts_recorded (ops : List PutOp) {p : Parcel} (hW : Writer p) (hrec : Recorded p) :
    ∃ p', puts ops p = some p' ∧ Grown p p' ∧ Recorded p' := by
  induction ops generalizing p with
  | nil => exact ⟨p, rfl, grown_refl hW, hrec⟩
  | cons op ops ih =>
      rcases apply_grown op p hW with ⟨q, hq, hpq, hoffs⟩
      rcases ih hpq.writer (recorded_grown hW hrec hpq hoffs) with ⟨r, hr, hqr, hrecr⟩
      exact ⟨r, by rw [puts, hq, Option.bind_some, hr], grown_trans hpq hqr, hrecr⟩

theorem wireSize_sum (ops : List PutOp) : totalSize ops = (ops.map PutOp.wireSize).sum := by
  rw [totalSize, List.map_congr_left fun op _ => wireSize_eq op]

theorem totalSlots_eq (ops : List PutOp) : totalSlots ops = ops.countP PutOp.isObject := by
  induction ops with
  | nil => rfl
  | cons op ops ih =>
      have hcons : totalSlots (op :: ops) = op.slots + totalSlots ops := List.sum_cons
      rw [hcons, ih, List.countP_cons, Nat.add_comm]
      rfl

/-- The overflow flag is clear exactly if everything fits. -/
theorem clear_iff_wireSize {io : IoData} {ops : List PutOp} {p : Parcel}
    (hputs : puts ops (Parcel.new io) = some p) :
    p.flags.overflow = false ↔
      (ops.map PutOp.wireSize).sum ≤ 1008 ∧ ops.countP PutOp.isObject ≤ 4 := by
  rw [puts_clear_iff hputs, wireSize_sum, totalSlots_eq]

/-- Whatever is written into a fresh parcel, the overflow flag is clear exactly
    if the sizes add up to no more than the area and the objects are no more
    than the slots. In any case the books are kept, nothing is stored outside
    the areas or behind the cursors, and the recorded offsets increase, each at
    an object of its own. -/
theorem filling_exact (io : IoData) (ops : List PutOp) :
    ∃ p, puts ops (Parcel.new io) = some p ∧
      (p.flags.overflow = false ↔
        (ops.map PutOp.wireSize).sum ≤ 1008 ∧ ops.countP PutOp.isObject ≤ 4) ∧
      ((p.data : Int) + p.dataAvail = 1008 ∧ 0 ≤ p.dataAvail ∧
        (p.offs : Int) + p.offsAvail = 4 ∧ 0 ≤ p.offsAvail) ∧
      (p.data0 = io.addr + 16 ∧ p.buf.length = 1008 ∧
        ∀ i, p.data ≤ i → p.buf[i]? = (Parcel.new io).buf[i]?) ∧
      (p.offs0 = io.addr ∧ p.tab.length = 4 ∧
        ∀ i, p.offs ≤ i → p.tab[i]? = (Parcel.new io).tab[i]?) ∧
      (p.offsets.Pairwise fun o o' => o.toNat + 16 ≤ o'.toNat) ∧
      ∀ o ∈ p.offsets, o.toNat % 4 = 0 ∧ o.toNat + 16 ≤ p.data ∧
        ∃ type value, Parcel.flatObject type value <+: p.payload.drop o.toNat := by
  rcases puts_recorded ops (writer_new io) (recorded_new io) with ⟨p, hputs, hgrown, hrec⟩
  have hW := hgrown.writer
  exact ⟨p, hputs, clear_iff_wireSize hputs, ⟨hW.room, hW.avail, hW.slots, hW.free⟩,
    ⟨hgrown.data0, hW.area, hgrown.behind⟩, ⟨hgrown.offs0, hW.table, hgrown.slotsBehind⟩,
    hrec.apart, hrec.objects⟩

end Binder

end ZeusOS
