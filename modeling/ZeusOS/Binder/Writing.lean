import ZeusOS.Binder.Parcel
import Mathlib.Data.List.Induction

/-!
# Writing a Parcel

What a sequence of `put` calls leaves behind. A parcel that is being written
keeps its books: the cursor and the room left add up to the size of the area,
and the same holds of the offset slots. `Writer` is that invariant. Under it no
store can leave the area, so every `put` has a result, whether or not it fits.

The wire form of a value is described by `segments`: the pieces that are
allocated one by one, each of which starts on a multiple of four. What lies
between the end of a piece and the start of the next is never written, so the
payload is determined only up to those bytes and `Padded` relates the pieces to
every payload they can give. `apply_spec` is the result: while the overflow
flag stays clear, each `put` appends its padded pieces to the payload, and an
object also appends its own position to the offsets.

The overflow flag is never cleared, which is why a clear flag at the end says
something about every step on the way.

## Main definitions

* `alignNat`: Rounding up to a multiple of four.
* `PutOp`: A call of one of the `put` functions.
* `puts`: A sequence of calls.
* `Writer`: The bookkeeping invariant.
* `segments`, `Padded`: The wire form.

## Theorems

* `writer_new`: A fresh parcel keeps its books.
* `allocCopy_fits`, `allocCopy_full`: The two outcomes of writing a piece.
* `putObject_stored`, `putObject_unstored`: The two outcomes of writing an
  object.
* `apply_spec`: What one `put` does.
* `puts_snoc`: What the last of a sequence does.
* `writer_puts`: The books are kept whatever is written.
-/

namespace ZeusOS

namespace Binder

open Foundation.Words

/-- Rounding up to a multiple of four, without the wrap-around. -/
def alignNat (n : Nat) : Nat := (n + 3) / 4 * 4

theorem alignNat_spec (n : Nat) : n ≤ alignNat n ∧ alignNat n < n + 4 ∧ alignNat n % 4 = 0 := by
  unfold alignNat
  omega

theorem alignSize_toNat (size : UInt32) (h : size.toNat + 3 < 2 ^ 32) :
    (Parcel.alignSize size).toNat = alignNat size.toNat := by
  rw [Parcel.alignSize, and_not_three_toNat, UInt32.toNat_add]
  -- Adding three does not wrap, and clearing two bits is rounding down.
  change (size.toNat + 3) % 2 ^ 32 / 4 * 4 = _
  rw [Nat.mod_eq_of_lt h]
  rfl

@[simp] theorem flatObject_length (type value : UInt32) :
    (Parcel.flatObject type value).length = 16 := rfl

/-- A call of one of the `put` functions, with its argument. -/
inductive PutOp where
  | uint32 (iVal : UInt32)
  | string8 (str : Option CString)
  | string16 (str : Option CString16)
  | string16X (str : Option CString)
  | fd (iFd : UInt32)
  | obj (ptr : UInt32)
  | ref (iHandle : UInt32)

namespace PutOp

def apply : PutOp → Parcel → Option Parcel
  | uint32 iVal => Parcel.putUint32 iVal
  | string8 str => Parcel.putString8 str
  | string16 str => Parcel.putString16 str
  | string16X str => Parcel.putString16X str
  | fd iFd => Parcel.putFd iFd
  | obj ptr => Parcel.putObj ptr
  | ref iHandle => Parcel.putRef iHandle

/-- The pieces of a string: its length and its characters, or the length word
    that stands for no string. -/
def stringSegments (unit : UInt32) : Option (UInt32 × List UInt8) → List (List UInt8)
  | none => [le32 0xffffffff]
  | some (len, bytes) =>
    if len ≥ maxBioSize / unit then [le32 0xffffffff] else [le32 len, bytes]

/-- The pieces a `put` allocates and fills, in order. -/
def segments : PutOp → List (List UInt8)
  | uint32 iVal => [le32 iVal]
  | string8 str =>
    stringSegments 1 (str.map fun s => (UInt32.ofNat s.chars.length, s.chars ++ [0]))
  | string16 str =>
    stringSegments 2 (str.map fun s =>
      (UInt32.ofNat s.units.length, (s.units ++ [0]).flatMap le16))
  | string16X str =>
    stringSegments 2 (str.map fun s =>
      (UInt32.ofNat s.chars.length, (s.chars.map UInt8.toUInt16 ++ [0]).flatMap le16))
  | fd iFd => [Parcel.flatObject binderTypeFd iFd]
  | obj ptr => [Parcel.flatObject binderTypeBinder ptr]
  | ref iHandle => [Parcel.flatObject binderTypeHandle iHandle]

/-- The calls that record an offset. -/
def isObject : PutOp → Bool
  | fd _ => true
  | obj _ => true
  | ref iHandle => iHandle ≠ 0
  | _ => false

/-- The room a call takes in the data area. -/
def encodedSize (op : PutOp) : Nat := (op.segments.map fun seg => alignNat seg.length).sum

end PutOp

/-- A sequence of `put` calls. -/
def puts : List PutOp → Parcel → Option Parcel
  | [], p => some p
  | op :: ops, p => (op.apply p).bind (puts ops)

theorem puts_append (ops₁ ops₂ : List PutOp) (p : Parcel) :
    puts (ops₁ ++ ops₂) p = (puts ops₁ p).bind (puts ops₂) := by
  induction ops₁ generalizing p with
  | nil => rfl
  | cons op ops ih =>
      simp only [List.cons_append, puts, Option.bind_assoc]
      congr 1
      funext p'
      exact ih p'

/-- The books of a parcel that is being written. -/
structure Writer (p : Parcel) : Prop where
  room : (p.data : Int) + p.dataAvail = 1008
  avail : 0 ≤ p.dataAvail
  slots : (p.offs : Int) + p.offsAvail = 4
  free : 0 ≤ p.offsAvail
  area : p.buf.length = 1008
  table : p.tab.length = 4
  aligned : p.data % 4 = 0

theorem writer_new (io : IoData) : Writer (Parcel.new io) := by
  constructor <;> simp only [Parcel.new, Parcel.iMax, Parcel.offsBytes, Parcel.iMaxOffs,
    List.length_map, List.length_range] <;> omega

theorem payload_new (io : IoData) : (Parcel.new io).payload = [] := rfl

theorem offsets_new (io : IoData) : (Parcel.new io).offsets = [] := rfl

theorem payload_length (p : Parcel) (hW : Writer p) : p.payload.length = p.data := by
  have h1 := hW.room
  have h2 := hW.avail
  rw [Parcel.payload, List.length_take, hW.area]
  omega

theorem payload_length_le (p : Parcel) (hW : Writer p) : p.payload.length ≤ 1008 := by
  have h1 := hW.room
  have h2 := hW.avail
  rw [payload_length p hW]
  omega

theorem offsets_length (p : Parcel) (hW : Writer p) : p.offsets.length = p.offs := by
  have h1 := hW.slots
  have h2 := hW.free
  rw [Parcel.offsets, List.length_take, hW.table]
  omega

theorem writer_setOverflow (p : Parcel) (hW : Writer p) : Writer p.setOverflow :=
  ⟨hW.room, hW.avail, hW.slots, hW.free, hW.area, hW.table, hW.aligned⟩

theorem bioAlloc_full (p : Parcel) (size : UInt32) (hs : size.toNat + 3 < 2 ^ 31)
    (h : p.dataAvail < (alignNat size.toNat : Int)) :
    p.bioAlloc size = (none, p.setOverflow) := by
  have hsize := alignSize_toNat size (by omega)
  have hbound := alignNat_spec size.toNat
  have hint : toInt (Parcel.alignSize size) = (alignNat size.toNat : Int) := by
    rw [toInt_of_lt _ (by unfold alignNat at *; omega), hsize]
  rw [Parcel.bioAlloc, hint, if_pos h]

theorem bioAlloc_fits (p : Parcel) (size : UInt32) (hW : Writer p)
    (hs : size.toNat + 3 < 2 ^ 31) (h : (alignNat size.toNat : Int) ≤ p.dataAvail) :
    p.bioAlloc size = (some p.data,
      { p with data := p.data + alignNat size.toNat
               dataAvail := p.dataAvail - alignNat size.toNat }) := by
  have hroom := hW.room
  have hsize := alignSize_toNat size (by omega)
  have hint : toInt (Parcel.alignSize size) = (alignNat size.toNat : Int) := by
    rw [toInt_of_lt _ (by omega), hsize]
  -- The `int` comparison and the `unsigned` subtraction agree on sizes that fit.
  rw [Parcel.bioAlloc, hint, if_neg (by omega), Parcel.advance,
    toInt_sub _ _ (by omega) (by omega), hsize]

/-- A stretch of payload that carries the pieces, each padded to a multiple of
    four with whatever the memory held. -/
inductive Padded : List (List UInt8) → List UInt8 → Prop
  | nil : Padded [] []
  | cons (seg pad : List UInt8) (segs : List (List UInt8)) (rest : List UInt8)
      (hpad : (seg ++ pad).length = alignNat seg.length) (hrest : Padded segs rest) :
      Padded (seg :: segs) (seg ++ pad ++ rest)

-- The bytes between the pieces are unknown, their number is not.
theorem padded_length (segs : List (List UInt8)) (chunk : List UInt8) (h : Padded segs chunk) :
    chunk.length = (segs.map fun seg => alignNat seg.length).sum := by
  induction h with
  | nil => rfl
  | cons seg pad segs rest hpad _ ih =>
      rw [List.length_append, hpad, ih, List.map_cons, List.sum_cons]

/-- One parcel is another with `chunk` appended to its payload. -/
structure Appended (p p' : Parcel) (chunk : List UInt8) : Prop where
  writer : Writer p'
  payload : p'.payload = p.payload ++ chunk
  flags : p'.flags = p.flags

theorem appended_data (p p' : Parcel) (chunk : List UInt8) (hW : Writer p)
    (h : Appended p p' chunk) : p'.data = p.data + chunk.length := by
  have hlen := congrArg List.length h.payload
  rw [payload_length p' h.writer, List.length_append, payload_length p hW] at hlen
  exact hlen

/-- Storing into freshly allocated room appends the stored bytes and whatever
    pads them. -/
theorem store_appended {p q : Parcel} (hW : Writer p) (hWq : Writer q) (bytes : List UInt8)
    (n : Nat) (hn : bytes.length ≤ n) (hq : q.data = p.data + n) (hbuf : q.buf = p.buf)
    (hflags : q.flags = p.flags) :
    ∃ r pad, q.store p.data bytes = some r ∧ (bytes ++ pad).length = n ∧
      Appended p r (bytes ++ pad) ∧ r.tab = q.tab ∧ r.offs = q.offs ∧ r.offsAvail = q.offsAvail := by
  have hroom := hWq.room
  have havail := hWq.avail
  have harea := hW.area
  have hle : p.data + bytes.length ≤ q.buf.length := by
    rw [hbuf, harea]
    omega
  refine ⟨{ q with buf := splice p.data bytes q.buf },
    (p.buf.drop (p.data + bytes.length)).take (n - bytes.length), ?_, ?_, ?_, rfl, rfl, rfl⟩
  · rw [Parcel.store, if_pos hle]
  · rw [List.length_append, List.length_take, List.length_drop, harea]
    omega
  · refine ⟨⟨hWq.room, hWq.avail, hWq.slots, hWq.free, ?_, hWq.table, hWq.aligned⟩, ?_, hflags⟩
    · rw [← hWq.area]
      exact splice_length _ _ _ hle
    · simp only [Parcel.payload]
      -- Below the old cursor the store changes nothing, and up to the new one it is all there is.
      rw [hq, hbuf, take_splice _ _ _ _ hn (by rw [← hbuf]; exact hle)]

theorem allocCopy_full (p : Parcel) (size : UInt32) (bytes : List UInt8)
    (hs : size.toNat + 3 < 2 ^ 31) (h : p.dataAvail < (alignNat size.toNat : Int)) :
    p.allocCopy size bytes = some p.setOverflow := by
  rw [Parcel.allocCopy, bioAlloc_full p size hs h]

theorem allocCopy_fits (p : Parcel) (size : UInt32) (bytes : List UInt8) (hW : Writer p)
    (hlen : bytes.length = size.toNat) (hs : size.toNat + 3 < 2 ^ 31)
    (h : (alignNat size.toNat : Int) ≤ p.dataAvail) :
    ∃ p' pad, p.allocCopy size bytes = some p' ∧
      (bytes ++ pad).length = alignNat bytes.length ∧ Appended p p' (bytes ++ pad) ∧
      p'.tab = p.tab ∧ p'.offs = p.offs ∧ p'.offsAvail = p.offsAvail := by
  have hspec := alignNat_spec size.toNat
  have hroom := hW.room
  have haligned := hW.aligned
  rw [Parcel.allocCopy, bioAlloc_fits p size hW hs h, hlen]
  -- The cursor has moved, the bytes are still to come.
  have hWq : Writer { p with data := p.data + alignNat size.toNat
                             dataAvail := p.dataAvail - alignNat size.toNat } := by
    refine ⟨?_, ?_, hW.slots, hW.free, hW.area, hW.table, ?_⟩ <;> simp only <;> omega
  exact store_appended hW hWq bytes (alignNat size.toNat) (by omega) rfl rfl rfl

/-- Copying pieces into the parcel one after another. -/
def putSegments : List (List UInt8) → Parcel → Option Parcel
  | [], p => some p
  | seg :: segs, p => (p.allocCopy (UInt32.ofNat seg.length) seg).bind (putSegments segs)

/-- What a call leaves behind: the books kept, and, unless the overflow flag is
    up, the pieces appended and an object's position recorded. -/
structure Wrote (segs : List (List UInt8)) (object : Bool) (p p' : Parcel) : Prop where
  writer : Writer p'
  sticky : p.flags.overflow = true → p'.flags.overflow = true
  wrote : p'.flags.overflow = false → ∃ chunk, Padded segs chunk ∧
    p'.payload = p.payload ++ chunk ∧
    p'.offsets = p.offsets ++ if object then [UInt32.ofNat p.data] else []

/-- Once the flag is up, only the books are left to keep. -/
theorem wrote_of_overflow {segs : List (List UInt8)} {object : Bool} {p q : Parcel}
    (hW : Writer q) (hov : q.flags.overflow = true) : Wrote segs object p q := by
  refine ⟨hW, fun _ => hov, fun hclear => ?_⟩
  rw [hov] at hclear
  exact absurd hclear.symm Bool.false_ne_true

theorem putSegments_spec (segs : List (List UInt8)) (p : Parcel) (hW : Writer p)
    (hsmall : ∀ seg ∈ segs, seg.length + 3 < 2 ^ 31) :
    ∃ p', putSegments segs p = some p' ∧ Wrote segs false p p' := by
  -- The induction is on the pieces; the parcel moves on with every one.
  induction segs generalizing p with
  | nil =>
      refine ⟨p, rfl, hW, fun h => h, fun _ => ⟨[], Padded.nil, ?_, ?_⟩⟩
      · rw [List.append_nil]
      · rw [if_neg Bool.false_ne_true, List.append_nil]
  | cons seg segs ih =>
      have hseg := hsmall seg (List.mem_cons_self ..)
      have hrest : ∀ s ∈ segs, s.length + 3 < 2 ^ 31 :=
        fun s hs => hsmall s (List.mem_cons_of_mem _ hs)
      have hsize : (UInt32.ofNat seg.length).toNat = seg.length := by
        rw [UInt32.toNat_ofNat']
        omega
      simp only [putSegments]
      by_cases hfit : (alignNat (UInt32.ofNat seg.length).toNat : Int) ≤ p.dataAvail
      · -- The piece fits: it is appended, and the rest comes behind it.
        rcases allocCopy_fits p _ seg hW hsize.symm (by omega) hfit with
          ⟨q, pad, hq, hpad, happ, htab, hoffs, _⟩
        rcases ih q happ.writer hrest with ⟨r, hr, hwrote⟩
        refine ⟨r, by rw [hq, Option.bind_some, hr], hwrote.writer, ?_, ?_⟩
        · intro hov
          exact hwrote.sticky (by rw [happ.flags]; exact hov)
        · intro hov
          rcases hwrote.wrote hov with ⟨chunk, hchunk, hpay, hoff⟩
          refine ⟨seg ++ pad ++ chunk, Padded.cons seg pad segs chunk hpad hchunk, ?_, ?_⟩
          · rw [hpay, happ.payload, List.append_assoc]
          · rw [hoff, Parcel.offsets, Parcel.offsets, htab, hoffs]
            rfl
      · -- The piece does not fit: the flag goes up and stays up.
        rw [allocCopy_full p _ seg (by omega) (by omega), Option.bind_some]
        rcases ih p.setOverflow (writer_setOverflow p hW) hrest with ⟨r, hr, hwrote⟩
        exact ⟨r, hr, wrote_of_overflow hwrote.writer (hwrote.sticky rfl)⟩

/-- An object that finds room and a free slot is stored behind the payload, with
    its position in the slot. -/
theorem putObject_stored (type value : UInt32) (p : Parcel) (hW : Writer p)
    (hfit : 16 ≤ p.dataAvail) (hslot : p.offsAvail ≠ 0) :
    ∃ r pad, p.bioAllocObj.bind (Parcel.fillObj type value) = some r ∧
      (Parcel.flatObject type value ++ pad).length = 16 ∧
      Appended p r (Parcel.flatObject type value ++ pad) ∧
      r.offsets = p.offsets ++ [UInt32.ofNat p.data] ∧ r.offsAvail = p.offsAvail - 1 := by
  have hroom := hW.room
  have hslots := hW.slots
  have hfree := hW.free
  have htable := hW.table
  have haligned := hW.aligned
  have hoffs : p.offs < p.tab.length := by omega
  have halign : alignNat (16 : UInt32).toNat = 16 := rfl
  have halloc := bioAlloc_fits p 16 hW (by decide) (by rw [halign]; exact hfit)
  rw [halign] at halloc
  -- The record between the two writes: offset pushed, object still blank.
  have hWq : Writer { p with
      data := p.data + 16
      dataAvail := p.dataAvail - 16
      tab := p.tab.set p.offs (UInt32.ofNat p.data)
      offs := p.offs + 1
      offsAvail := p.offsAvail - 1 } := by
    refine ⟨?_, ?_, ?_, ?_, hW.area, by rw [List.length_set, htable], ?_⟩ <;> simp only <;> omega
  rcases store_appended hW hWq (Parcel.flatObject type value) 16 (le_refl _) rfl rfl rfl
    with ⟨r, pad, hr, hpad, happ, htab, hoff, havail⟩
  refine ⟨r, pad, ?_, hpad, happ, ?_, havail⟩
  · simp only [Parcel.bioAllocObj, halloc, hslot, ne_eq, not_false_eq_true, if_true,
      Parcel.pushOffset, if_pos hoffs, Option.map_some, Option.bind_some, Parcel.fillObj,
      Nat.cast_ofNat]
    exact hr
  · -- The slots before the new one are those of the parcel before.
    rw [Parcel.offsets, Parcel.offsets, htab, hoff]
    simp only
    rw [List.take_add_one, List.getElem?_set_self hoffs, List.take_set_of_le (le_refl _)]
    rfl

/-- An object that finds no room, or room but no slot, is not stored. The room
    it found is lost all the same. -/
theorem putObject_unstored (type value : UInt32) (p : Parcel) (hW : Writer p)
    (h : ¬ (16 ≤ p.dataAvail ∧ p.offsAvail ≠ 0)) :
    ∃ q, p.bioAllocObj.bind (Parcel.fillObj type value) = some q.setOverflow ∧ Writer q ∧
      (q = p ∨ q = { p with data := p.data + 16, dataAvail := p.dataAvail - 16 }) := by
  have hroom := hW.room
  have haligned := hW.aligned
  have halign : alignNat (16 : UInt32).toNat = 16 := rfl
  by_cases hfit : (alignNat (16 : UInt32).toNat : Int) ≤ p.dataAvail
  · have halloc := bioAlloc_fits p 16 hW (by decide) hfit
    rw [halign] at halloc hfit
    have hslot : p.offsAvail = 0 := by
      by_contra hne
      exact h ⟨hfit, hne⟩
    refine ⟨_, ?_, ?_, Or.inr rfl⟩
    · simp only [Parcel.bioAllocObj, halloc, hslot, ne_eq, not_true_eq_false, if_false,
        Option.bind_some, Parcel.fillObj, Nat.cast_ofNat]
    · refine ⟨?_, ?_, hW.slots, hW.free, hW.area, hW.table, ?_⟩ <;> simp only <;> omega
  · -- There is no room, so the slots are not even looked at.
    refine ⟨p, ?_, hW, Or.inl rfl⟩
    simp only [Parcel.bioAllocObj, bioAlloc_full p 16 (by decide) (by omega), Option.bind_some,
      Parcel.fillObj]
    rfl

/-- Writing an object into a slot of the offsets array. -/
theorem putObject_spec (type value : UInt32) (p : Parcel) (hW : Writer p) :
    ∃ p', p.bioAllocObj.bind (Parcel.fillObj type value) = some p' ∧
      Wrote [Parcel.flatObject type value] true p p' := by
  by_cases hfit : 16 ≤ p.dataAvail ∧ p.offsAvail ≠ 0
  · -- Room and a slot: the object and its offset are written.
    rcases putObject_stored type value p hW hfit.1 hfit.2 with ⟨r, pad, hr, hpad, happ, hoff, _⟩
    refine ⟨r, hr, happ.writer, fun h => by rw [happ.flags]; exact h, fun _ =>
      ⟨Parcel.flatObject type value ++ pad, ?_, happ.payload, ?_⟩⟩
    · have hlen : 16 = alignNat (Parcel.flatObject type value).length := by
        rw [flatObject_length]
        rfl
      have hchunk := Padded.cons (Parcel.flatObject type value) pad [] [] (hpad.trans hlen)
        Padded.nil
      rwa [List.append_nil] at hchunk
    · rw [if_pos rfl, hoff]
  · rcases putObject_unstored type value p hW hfit with ⟨q, hq, hWq, _⟩
    exact ⟨q.setOverflow, hq, wrote_of_overflow (writer_setOverflow q hWq) rfl⟩

/-- The string writers allocate the length word and then as many bytes as they
    copy. -/
theorem putString_eq (unit : UInt32) (str : Option (UInt32 × List UInt8)) (p : Parcel)
    (hbytes : ∀ len bytes, str = some (len, bytes) → ¬ len ≥ maxBioSize / unit →
      UInt32.ofNat bytes.length = (len + 1) * unit) :
    Parcel.putString unit str p = putSegments (PutOp.stringSegments unit str) p := by
  have hword : ∀ (w : UInt32) (k : Parcel → Option Parcel), (Parcel.putUint32 w p).bind k
      = (p.allocCopy (UInt32.ofNat (le32 w).length) (le32 w)).bind k := fun _ _ => rfl
  -- A null pointer is sent as the length word alone.
  rcases str with _ | ⟨len, bytes⟩
  · simp only [Parcel.putString, PutOp.stringSegments, putSegments]
    exact (Option.bind_fun_some _).symm
  · simp only [Parcel.putString, PutOp.stringSegments]
    by_cases hlen : len ≥ maxBioSize / unit
    · -- Past the limit only the length word of a null pointer is written.
      rw [if_pos hlen, if_pos hlen]
      exact (Option.bind_fun_some _).symm
    · rw [if_neg hlen, if_neg hlen, hword]
      simp only [putSegments]
      congr 1
      funext q
      rw [hbytes len bytes rfl hlen]
      exact (Option.bind_fun_some _).symm

theorem flatMap_le16_length (units : List UInt16) :
    (units.flatMap le16).length = 2 * units.length := by
  induction units with
  | nil => rfl
  | cons u units ih =>
      rw [List.flatMap_cons, List.length_append, ih, List.length_cons, le16_length]
      omega

/-- The size a byte string asks for is the size of what it copies. -/
theorem string8_size (chars : List UInt8) :
    UInt32.ofNat (chars ++ [0]).length = (UInt32.ofNat chars.length + 1) * 1 := by
  apply UInt32.toNat_inj.mp
  rw [UInt32.toNat_mul, UInt32.toNat_add, UInt32.toNat_ofNat', UInt32.toNat_ofNat',
    List.length_append]
  -- Lengths wrap on both sides alike, so no bound is needed.
  change _ = ((chars.length % 2 ^ 32 + 1) % 2 ^ 32 * 1) % 2 ^ 32
  simp only [List.length_cons, List.length_nil]
  omega

/-- The same for a string of half words. -/
theorem string16_size (units : List UInt16) (n : Nat) (hn : units.length = n) :
    UInt32.ofNat ((units ++ [0]).flatMap le16).length = (UInt32.ofNat n + 1) * 2 := by
  apply UInt32.toNat_inj.mp
  rw [UInt32.toNat_mul, UInt32.toNat_add, UInt32.toNat_ofNat', UInt32.toNat_ofNat',
    flatMap_le16_length, List.length_append, hn]
  change _ = ((n % 2 ^ 32 + 1) % 2 ^ 32 * 2) % 2 ^ 32
  simp only [List.length_cons, List.length_nil]
  omega

theorem maxBioSize_div_one : (maxBioSize / 1).toNat = 2 ^ 30 := by decide

theorem maxBioSize_div_two : (maxBioSize / 2).toNat = 2 ^ 29 := by decide

theorem ofNat_lt_of_not_ge (n : Nat) (limit : UInt32) (hn : n < 2 ^ 32)
    (h : ¬ UInt32.ofNat n ≥ limit) : n < limit.toNat := by
  rw [ge_iff_le, UInt32.le_iff_toNat_le, UInt32.toNat_ofNat'] at h
  omega

theorem stringSegments_small (unit : UInt32) (str : Option (UInt32 × List UInt8))
    (hstr : ∀ len bytes, str = some (len, bytes) → ¬ len ≥ maxBioSize / unit →
      bytes.length + 3 < 2 ^ 31) :
    ∀ seg ∈ PutOp.stringSegments unit str, seg.length + 3 < 2 ^ 31 := by
  intro seg hseg
  unfold PutOp.stringSegments at hseg
  rcases str with _ | ⟨len, bytes⟩
  · rw [List.mem_singleton] at hseg
    rw [hseg, le32_length]
    decide
  · simp only at hseg
    by_cases hlen : len ≥ maxBioSize / unit
    · rw [if_pos hlen, List.mem_singleton] at hseg
      rw [hseg, le32_length]
      decide
    · rw [if_neg hlen, List.mem_cons, List.mem_singleton] at hseg
      -- Below the limit there are two pieces, of which the first is a word.
      rcases hseg with rfl | rfl
      · rw [le32_length]
        decide
      · exact hstr len _ rfl hlen

/-- A string of half words below the limit is small, wherever its length is taken
    from. -/
theorem string16_small {α : Type} (str : Option α) (units : α → List UInt16) (n : α → Nat)
    (hn : ∀ s, (units s).length = n s) (hfits : ∀ s, n s < 2 ^ 32) :
    ∀ seg ∈ PutOp.stringSegments 2
      (str.map fun s => (UInt32.ofNat (n s), (units s ++ [0]).flatMap le16)),
      seg.length + 3 < 2 ^ 31 := by
  refine stringSegments_small 2 _ (fun len bytes h hlen => ?_)
  rcases Option.map_eq_some_iff.mp h with ⟨s, _, hs⟩
  rcases Prod.mk.inj hs with ⟨rfl, rfl⟩
  have hlt := ofNat_lt_of_not_ge _ _ (hfits s) hlen
  rw [maxBioSize_div_two] at hlt
  rw [flatMap_le16_length, List.length_append, List.length_singleton, hn]
  omega

/-- The two writers of half words allocate and copy the same pieces. -/
theorem string16_putSegments {α : Type} (str : Option α) (units : α → List UInt16) (n : α → Nat)
    (hn : ∀ s, (units s).length = n s) (p : Parcel) :
    Parcel.putString 2 (str.map fun s => (UInt32.ofNat (n s), (units s ++ [0]).flatMap le16)) p
      = putSegments (PutOp.stringSegments 2
          (str.map fun s => (UInt32.ofNat (n s), (units s ++ [0]).flatMap le16))) p := by
  refine putString_eq 2 _ p (fun len bytes h _ => ?_)
  rcases Option.map_eq_some_iff.mp h with ⟨s, _, hs⟩
  rcases Prod.mk.inj hs with ⟨rfl, rfl⟩
  exact string16_size (units s) _ (hn s)

/-- No piece comes near the sizes at which the arithmetic wraps. -/
theorem segments_small (op : PutOp) : ∀ seg ∈ op.segments, seg.length + 3 < 2 ^ 31 := by
  cases op with
  | uint32 _ | fd _ | obj _ | ref _ =>
      intro seg hseg
      simp only [PutOp.segments, List.mem_singleton] at hseg
      simp only [hseg, le32_length, flatObject_length, Nat.reduceAdd, Nat.reducePow,
        Nat.reduceLT]
  | string8 str =>
      refine stringSegments_small 1 _ (fun len bytes h hlen => ?_)
      rcases Option.map_eq_some_iff.mp h with ⟨s, _, hs⟩
      rcases Prod.mk.inj hs with ⟨rfl, rfl⟩
      have := ofNat_lt_of_not_ge _ _ s.fits hlen
      rw [maxBioSize_div_one] at this
      rw [List.length_append, List.length_singleton]
      omega
  | string16 str =>
      exact string16_small str CString16.units (fun s => s.units.length) (fun _ => rfl)
        CString16.fits
  | string16X str =>
      exact string16_small str (fun s => s.chars.map UInt8.toUInt16) (fun s => s.chars.length)
        (fun _ => List.length_map _) CString.fits

/-- A call that records no offset copies its pieces and nothing else. -/
theorem apply_eq_putSegments (op : PutOp) (p : Parcel) (hobj : op.isObject = false) :
    op.apply p = putSegments op.segments p := by
  cases op with
  | uint32 iVal => exact (Option.bind_fun_some _).symm
  | string8 str =>
      refine putString_eq 1 _ p (fun len bytes h _ => ?_)
      rcases Option.map_eq_some_iff.mp h with ⟨s, _, hs⟩
      rcases Prod.mk.inj hs with ⟨rfl, rfl⟩
      exact string8_size s.chars
  | string16 str =>
      exact string16_putSegments str CString16.units (fun s => s.units.length) (fun _ => rfl) p
  | string16X str =>
      exact string16_putSegments str (fun s => s.chars.map UInt8.toUInt16)
        (fun s => s.chars.length) (fun _ => List.length_map _) p
  | fd _ | obj _ =>
      simp only [PutOp.isObject, Bool.true_eq_false] at hobj
  | ref iHandle =>
      -- Only the zero handle is written without a slot.
      simp only [PutOp.isObject, ne_eq, decide_not, Bool.not_eq_false',
        decide_eq_true_eq] at hobj
      subst hobj
      have hsize : UInt32.ofNat (Parcel.flatObject binderTypeHandle 0).length = 16 := rfl
      simp only [PutOp.apply, Parcel.putRef, ne_eq, not_true_eq_false, if_false, PutOp.segments,
        putSegments, Parcel.allocCopy, hsize]
      rcases p.bioAlloc 16 with ⟨_ | ptr, q⟩
      · rfl
      · exact (Option.bind_fun_some _).symm

/-- What one call does: it has a result, the books are kept, and while the
    overflow flag stays clear it appends its pieces and, for an object, its
    position. -/
theorem apply_spec (op : PutOp) (p : Parcel) (hW : Writer p) :
    ∃ p', op.apply p = some p' ∧ Wrote op.segments op.isObject p p' := by
  -- A call either copies its pieces or fills a slot as well.
  rcases hobj : op.isObject with _ | _
  · rw [apply_eq_putSegments op p hobj]
    exact putSegments_spec op.segments p hW (segments_small op)
  · cases op with
    | uint32 _ | string8 _ | string16 _ | string16X _ =>
        simp only [PutOp.isObject, Bool.false_eq_true] at hobj
    | fd iFd => exact putObject_spec binderTypeFd iFd p hW
    | obj ptr => exact putObject_spec binderTypeBinder ptr p hW
    | ref iHandle =>
        simp only [PutOp.isObject, ne_eq, decide_not, Bool.not_eq_true',
          decide_eq_false_iff_not] at hobj
        simp only [PutOp.apply, Parcel.putRef, ne_eq, hobj, not_false_eq_true, if_true]
        exact putObject_spec binderTypeHandle iHandle p hW

/-- A sequence of calls keeps the books and never lowers the flag. -/
theorem writer_puts (ops : List PutOp) (p : Parcel) (hW : Writer p) :
    ∃ p', puts ops p = some p' ∧ Writer p' ∧
      (p.flags.overflow = true → p'.flags.overflow = true) := by
  induction ops generalizing p with
  | nil => exact ⟨p, rfl, hW, fun h => h⟩
  | cons op ops ih =>
      -- One step by its specification, then the rest.
      rcases apply_spec op p hW with ⟨q, hq, hwrote⟩
      rcases ih q hwrote.writer with ⟨r, hr, hWr, hstick⟩
      refine ⟨r, ?_, hWr, fun h => hstick (hwrote.sticky h)⟩
      rw [puts, hq, Option.bind_some, hr]

/-- Whatever was written into a fresh parcel, its books are kept. -/
theorem writer_of_puts {io : IoData} {ops : List PutOp} {p : Parcel}
    (h : puts ops (Parcel.new io) = some p) : Writer p := by
  rcases writer_puts ops _ (writer_new io) with ⟨q, hq, hWq, _⟩
  rw [h, Option.some.injEq] at hq
  rw [hq]
  exact hWq

/-- Peeling the last call off a sequence that ended without overflow: the calls
    before it did not overflow either, and it appended its pieces. -/
theorem puts_snoc (ops : List PutOp) (op : PutOp) (p p' : Parcel) (hW : Writer p)
    (h : puts (ops ++ [op]) p = some p') (hclear : p'.flags.overflow = false) :
    ∃ q, puts ops p = some q ∧ Writer q ∧ q.flags.overflow = false ∧
      Wrote op.segments op.isObject q p' := by
  rcases writer_puts ops p hW with ⟨q, hq, hWq, _⟩
  rcases apply_spec op q hWq with ⟨r, hr, hwrote⟩
  -- The flag sticks, so had it been up before the last call it would still be.
  rw [puts_append, hq, Option.bind_some, puts, hr, Option.bind_some, puts,
    Option.some.injEq] at h
  subst h
  refine ⟨q, hq, hWq, ?_, hwrote⟩
  by_contra hov
  have hup := hwrote.sticky (by simpa only [Bool.not_eq_false] using hov)
  rw [hclear] at hup
  exact absurd hup Bool.false_ne_true

end Binder

end ZeusOS
