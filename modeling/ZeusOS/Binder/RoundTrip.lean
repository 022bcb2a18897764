import ZeusOS.Binder.Reading

/-!
# Decode Undoes Encode

A parcel is written by a list of `put` calls, carried by the driver, and read
by the matching list of `get` calls. The driver copies the payload byte for
byte, except that it may rewrite the type and the value of the objects the
offsets list: a local binder becomes a handle, and the value becomes whatever
names the same thing in the receiving process. `Delivered` is that relation
between the bytes sent and the bytes received.

The proof runs along the list of calls from the left. What has to be kept in
step is the position: the writer appends at the end of its payload, the offsets
it records are those positions, and the reader must find each object at the
position its own cursor has reached. `Layout` states it once for both: every
call's wire form stands in the received message at the sum of the sizes before
it. `layout_of_puts` builds the layout while the calls are written, and
`gets_of_layout` reads it back.

An object can only be told from its neighbours because the offsets never point
anywhere else. The induction therefore carries that every recorded offset
leaves room for its object inside the payload written so far, which keeps
whatever is appended later out of the driver's reach.

## Main definitions

* `Proper`: The calls whose values survive the wire.
* `getter`: The `get` call that matches a `put` call.
* `expected`: What the matching calls should yield.
* `Delivered`: What the driver may do to a message.
* `Layout`: The wire forms standing in a message.

## Theorems

* `layout_of_puts`: Written calls are laid out in the delivered message.
* `holds_reads`: The matching getter reads a wire form back.
* `gets_of_layout`: A layout is read back call by call.
* `gets_puts`: Decode undoes encode.
-/

namespace ZeusOS

namespace Binder

open Foundation.Words

namespace PutOp

/-- The calls whose values survive the wire: strings that exist and are shorter
    than the limit, and handles that are not zero. -/
def Proper : PutOp → Prop
  | string8 str => ∃ s, str = some s ∧ s.chars.length < 2 ^ 30
  | string16 str => ∃ s, str = some s ∧ s.units.length < 2 ^ 29
  | string16X str => ∃ s, str = some s ∧ s.chars.length < 2 ^ 29
  | ref iHandle => iHandle ≠ 0
  | _ => True

/-- The `get` call that matches a `put` call. -/
def getter : PutOp → GetOp
  | uint32 _ => .uint32
  | string8 _ => .string8
  | string16 _ => .string16
  | string16X _ => .string16
  | fd _ => .fd
  | obj _ => .ref
  | ref _ => .ref

/-- What the matching call should yield, the value of an object being the one
    the driver left there. -/
def expected (rewrite : UInt32 → UInt32) : PutOp → Got
  | uint32 iVal => .word iVal
  | string8 str => .string8 (str.map fun s => s.chars ++ [0])
      ((str.map fun s => UInt32.ofNat s.chars.length).getD 0xffffffff)
  | string16 str => .string16 (str.map fun s => s.units ++ [0])
      ((str.map fun s => UInt32.ofNat s.units.length).getD 0xffffffff)
  | string16X str => .string16 (str.map fun s => s.chars.map UInt8.toUInt16 ++ [0])
      ((str.map fun s => UInt32.ofNat s.chars.length).getD 0xffffffff)
  | fd iFd => .word (rewrite iFd)
  | obj ptr => .word (rewrite ptr)
  | ref iHandle => .word (rewrite iHandle)

/-- The object type the receiver finds, if the call writes an object. -/
def receivedType : PutOp → UInt32
  | fd _ => binderTypeFd
  | _ => binderTypeHandle

/-- The value an object call writes. -/
def objectValue : PutOp → UInt32
  | fd iFd => iFd
  | obj ptr => ptr
  | ref iHandle => iHandle
  | _ => 0

end PutOp

/-- The yields of a list of calls, from position `k` on. The driver rewrites an
    object's value according to where the object stands. -/
def expectedFrom (rewrite : Nat → UInt32 → UInt32) : Nat → List PutOp → List Got
  | _, [] => []
  | k, op :: ops => op.expected (rewrite k) :: expectedFrom rewrite (k + op.encodedSize) ops

/-- The room a list of calls takes. -/
def totalSize (ops : List PutOp) : Nat := (ops.map PutOp.encodedSize).sum

-- Sums over the calls, taken apart at the end as the layout is.
theorem totalSize_snoc (ops : List PutOp) (op : PutOp) :
    totalSize (ops ++ [op]) = totalSize ops + op.encodedSize := by
  rw [totalSize, totalSize, List.map_append, List.sum_append, List.map_singleton,
    List.sum_singleton]

theorem expectedFrom_snoc (rewrite : Nat → UInt32 → UInt32) (ops : List PutOp) (op : PutOp)
    (k : Nat) : expectedFrom rewrite k (ops ++ [op])
      = expectedFrom rewrite k ops ++ [op.expected (rewrite (k + totalSize ops))] := by
  induction ops generalizing k with
  | nil => rfl
  | cons op' ops ih =>
      simp only [List.cons_append, expectedFrom, ih, totalSize, List.map_cons, List.sum_cons,
        Nat.add_assoc]

/-- The type the driver leaves in a listed object. -/
def deliveredType (type : UInt32) : UInt32 :=
  if type = binderTypeBinder then binderTypeHandle else type

/-- What the driver may do to a message: nothing, except to the type and the
    value of the listed objects. -/
structure Delivered (offs : List UInt32) (rewrite : Nat → UInt32 → UInt32)
    (sent recv : List UInt8) : Prop where
  length : recv.length = sent.length
  same : ∀ i, (∀ o ∈ offs, ¬ (o.toNat ≤ i ∧ i < o.toNat + 4) ∧
    ¬ (o.toNat + 8 ≤ i ∧ i < o.toNat + 12)) → recv[i]? = sent[i]?
  type : ∀ o ∈ offs, ∀ t, le32 t <+: sent.drop o.toNat → le32 (deliveredType t) <+: recv.drop o.toNat
  value : ∀ o ∈ offs, ∀ v, le32 v <+: sent.drop (o.toNat + 8) →
    le32 (rewrite o.toNat v) <+: recv.drop (o.toNat + 8)

/-- The wire form of a call stands at `k` in the message. -/
def Holds (rewrite : Nat → UInt32 → UInt32) (msg : List UInt8) (offs : List UInt32) (k : Nat)
    (op : PutOp) : Prop :=
  if op.isObject then
    UInt32.ofNat k ∈ offs ∧ le32 op.receivedType <+: msg.drop k ∧
      le32 (rewrite k op.objectValue) <+: msg.drop (k + 8)
  else SegsAt msg k op.segments

/-- The wire forms of the calls stand one after another from the start of the
    message, up to `k`. -/
inductive Layout (rewrite : Nat → UInt32 → UInt32) (msg : List UInt8) (offs : List UInt32) :
    List PutOp → Nat → Prop
  | nil : Layout rewrite msg offs [] 0
  | snoc (ops : List PutOp) (op : PutOp) (k : Nat) (hops : Layout rewrite msg offs ops k)
      (hop : Holds rewrite msg offs k op) (hle : k + op.encodedSize ≤ msg.length) :
      Layout rewrite msg offs (ops ++ [op]) (k + op.encodedSize)

/-- A layout ends with its last call. -/
theorem layout_last {rewrite : Nat → UInt32 → UInt32} {msg : List UInt8} {offs : List UInt32}
    (ops : List PutOp) (op : PutOp) {k : Nat} (h : Layout rewrite msg offs (ops ++ [op]) k) :
    ∃ k', k = k' + op.encodedSize ∧ Layout rewrite msg offs ops k' ∧
      Holds rewrite msg offs k' op ∧ k ≤ msg.length := by
  -- The index is generalized so that the cases see which list was built.
  generalize hall : ops ++ [op] = all at h
  cases h with
  | nil => exact absurd hall (List.append_ne_nil_of_right_ne_nil _ (List.cons_ne_nil _ _))
  | snoc ops' op' k' hops hop hle =>
      rcases List.append_inj' hall rfl with ⟨rfl, hlast⟩
      rw [List.cons.injEq] at hlast
      rw [hlast.1]
      exact ⟨k', rfl, hops, hop, hle⟩

theorem layout_nil {rewrite : Nat → UInt32 → UInt32} {msg : List UInt8} {offs : List UInt32}
    {k : Nat} (h : Layout rewrite msg offs [] k) : k = 0 := by
  generalize hall : ([] : List PutOp) = all at h
  cases h with
  | nil => rfl
  | snoc ops' op' k' _ _ _ =>
      exact absurd hall.symm (List.append_ne_nil_of_right_ne_nil _ (List.cons_ne_nil _ _))

theorem holds_of_take (rewrite : Nat → UInt32 → UInt32) (msg : List UInt8)
    (offs offs' : List UInt32) (n k : Nat) (op : PutOp) (hsub : offs ⊆ offs')
    (h : Holds rewrite (msg.take n) offs k op) : Holds rewrite msg offs' k op := by
  unfold Holds at *
  -- Whether an object or pieces, what stands below the cut stands in the whole.
  by_cases hobj : op.isObject = true
  · rw [if_pos hobj] at *
    exact ⟨hsub h.1, prefix_of_take _ msg n k h.2.1, prefix_of_take _ msg n (k + 8) h.2.2⟩
  · rw [if_neg hobj] at *
    exact segsAt_of_take n op.segments k h

/-- A layout in the front part of a message is a layout in the message. -/
theorem layout_of_take (rewrite : Nat → UInt32 → UInt32) (msg : List UInt8)
    (offs offs' : List UInt32) (n : Nat) (ops : List PutOp) (k : Nat) (hsub : offs ⊆ offs')
    (h : Layout rewrite (msg.take n) offs ops k) : Layout rewrite msg offs' ops k := by
  induction h with
  | nil => exact Layout.nil
  | snoc ops op k _ hop hle ih =>
      refine Layout.snoc ops op k ih (holds_of_take rewrite msg offs offs' n k op hsub hop) ?_
      rw [List.length_take] at hle
      omega

/-- Delivery of a message delivers its front part, if the objects listed there
    lie inside it. -/
theorem delivered_take (offs offs' : List UInt32) (rewrite : Nat → UInt32 → UInt32)
    (before chunk recv : List UInt8)
    (hin : ∀ o ∈ offs, o.toNat + 16 ≤ before.length)
    (hout : ∀ o ∈ offs', o ∈ offs ∨ before.length ≤ o.toNat) (hsub : offs ⊆ offs')
    (h : Delivered offs' rewrite (before ++ chunk) recv) :
    Delivered offs rewrite before (recv.take before.length) := by
  have hlen := h.length
  rw [List.length_append] at hlen
  -- Looking below the cut is the same in the part and in the whole.
  have hback : ∀ (seg : List UInt8) (i : Nat), i + seg.length ≤ before.length →
      seg <+: recv.drop i → seg <+: (recv.take before.length).drop i := by
    intro seg i hi hseg
    rw [List.drop_take]
    rw [List.prefix_iff_eq_take] at hseg ⊢
    rw [List.take_take, Nat.min_eq_left (by omega)]
    exact hseg
  have hfront : ∀ (seg : List UInt8) (i : Nat), seg <+: before.drop i →
      seg <+: (before ++ chunk).drop i := by
    intro seg i hseg
    exact hseg.trans (drop_prefix_drop (List.prefix_append _ _) i)
  refine ⟨by rw [List.length_take]; omega, fun i hi => ?_, fun o ho t ht => ?_,
    fun o ho v hv => ?_⟩
  -- Beyond the cut neither side has a byte.
  · by_cases hlt : i < before.length
    · have hleft : (before ++ chunk)[i]? = before[i]? := List.getElem?_append_left hlt
      rw [List.getElem?_take, if_pos hlt, ← hleft]
      refine h.same i (fun o ho => ?_)
      rcases hout o ho with hmem | hge
      · exact hi o hmem
      · omega
    · rw [List.getElem?_eq_none (by rw [List.length_take]; omega),
        List.getElem?_eq_none (by omega)]
  -- The fields of a listed object lie below the cut.
  · have := hin o ho
    exact hback _ _ (by rw [le32_length]; omega) (h.type o (hsub ho) t (hfront _ _ ht))
  · have := hin o ho
    exact hback _ _ (by rw [le32_length]; omega) (h.value o (hsub ho) v (hfront _ _ hv))

theorem deliveredType_fd : deliveredType binderTypeFd = binderTypeFd := by decide

theorem deliveredType_binder : deliveredType binderTypeBinder = binderTypeHandle := by decide

theorem deliveredType_handle : deliveredType binderTypeHandle = binderTypeHandle := by decide

theorem flatObject_type (type value : UInt32) (rest : List UInt8) :
    le32 type <+: Parcel.flatObject type value ++ rest := by
  simp only [Parcel.flatObject, List.append_assoc]
  exact List.prefix_append _ _

theorem flatObject_value (type value : UInt32) (rest : List UInt8) :
    le32 value <+: (Parcel.flatObject type value ++ rest).drop 8 := ⟨le32 0 ++ rest, rfl⟩

/-- The object calls write one piece, of a type the driver delivers as the
    received type. -/
theorem object_segments (op : PutOp) (hobj : op.isObject = true) :
    ∃ type, op.segments = [Parcel.flatObject type op.objectValue] ∧
      deliveredType type = op.receivedType := by
  cases op with
  | uint32 _ | string8 _ | string16 _ | string16X _ =>
      simp only [PutOp.isObject, Bool.false_eq_true] at hobj
  | fd iFd => exact ⟨binderTypeFd, rfl, deliveredType_fd⟩
  | obj ptr => exact ⟨binderTypeBinder, rfl, deliveredType_binder⟩
  | ref iHandle => exact ⟨binderTypeHandle, rfl, deliveredType_handle⟩

/-- The wire form just appended stands in the delivered message. -/
theorem holds_of_delivered (rewrite : Nat → UInt32 → UInt32) (offs : List UInt32)
    (before chunk recv : List UInt8) (op : PutOp) (hchunk : Padded op.segments chunk)
    (hsmall : before.length < 2 ^ 32) (hin : ∀ o ∈ offs, o.toNat + 16 ≤ before.length)
    (h : Delivered (offs ++ if op.isObject then [UInt32.ofNat before.length] else []) rewrite
      (before ++ chunk) recv) :
    Holds rewrite recv (offs ++ if op.isObject then [UInt32.ofNat before.length] else [])
      before.length op := by
  have hlen := h.length
  rw [List.length_append] at hlen
  have hpos : (UInt32.ofNat before.length).toNat = before.length := by
    rw [UInt32.toNat_ofNat']
    omega
  -- What was appended starts where the payload ended.
  have hhere : (before ++ chunk).drop before.length = chunk := List.drop_left
  unfold Holds
  by_cases hobj : op.isObject = true
  · rw [if_pos hobj] at *
    rw [if_pos hobj]
    rcases object_segments op hobj with ⟨type, hsegs, htype⟩
    have hmem : UInt32.ofNat before.length ∈ offs ++ [UInt32.ofNat before.length] :=
      List.mem_append_right _ (List.mem_singleton_self _)
    -- The chunk is the object, so its type and its value stand in it.
    rw [hsegs] at hchunk
    rcases hchunk with _ | ⟨_, pad, _, rest, hpad, hrest⟩
    have ht := h.type _ hmem type (by
      rw [hpos, hhere, List.append_assoc]
      exact flatObject_type _ _ _)
    have hv := h.value _ hmem op.objectValue (by
      rw [hpos, ← List.drop_drop, hhere, List.append_assoc]
      exact flatObject_value _ _ _)
    rw [hpos] at ht hv
    rw [htype] at ht
    exact ⟨hmem, ht, hv⟩
  · rw [if_neg hobj] at *
    -- No listed object reaches into the chunk, so it arrives as it was sent.
    have htail : recv.drop before.length = chunk := by
      apply List.ext_getElem?
      intro j
      rw [List.getElem?_drop, h.same (before.length + j) (fun o ho => ?_),
        List.getElem?_append_right (by omega), Nat.add_sub_cancel_left]
      rw [List.append_nil] at ho
      have := hin o ho
      omega
    have hfront : (recv.take before.length).length = before.length := by
      rw [List.length_take]
      omega
    have := segsAt_of_padded op.segments chunk hchunk (recv.take before.length)
    rwa [hfront, ← htail, List.take_append_drop] at this

theorem padded_size (op : PutOp) (chunk : List UInt8) (h : Padded op.segments chunk) :
    chunk.length = op.encodedSize := padded_length op.segments chunk h

/-- A call of a single piece takes its size. -/
theorem encodedSize_single (op : PutOp) (seg : List UInt8) (h : op.segments = [seg]) :
    op.encodedSize = alignNat seg.length := by
  rw [PutOp.encodedSize, h, List.map_singleton, List.sum_singleton]

theorem encodedSize_flatObject (op : PutOp) (type value : UInt32)
    (h : op.segments = [Parcel.flatObject type value]) : op.encodedSize = 16 := by
  rw [encodedSize_single op _ h, flatObject_length]
  rfl

theorem encodedSize_word (op : PutOp) (w : UInt32) (h : op.segments = [le32 w]) :
    op.encodedSize = 4 := by
  rw [encodedSize_single op _ h, le32_length]
  rfl

theorem object_size (op : PutOp) (hobj : op.isObject = true) : op.encodedSize = 16 := by
  rcases object_segments op hobj with ⟨type, hsegs, _⟩
  exact encodedSize_flatObject op type _ hsegs

/-- An offset that is recorded behind others is where an object starts. -/
theorem mem_recorded {op : PutOp} {offs : List UInt32} {start o : UInt32}
    (ho : o ∈ offs ++ if op.isObject then [start] else []) :
    o ∈ offs ∨ (op.isObject = true ∧ o = start) := by
  rcases List.mem_append.mp ho with hold | hlast
  · exact Or.inl hold
  · by_cases hobj : op.isObject = true
    · rw [if_pos hobj, List.mem_singleton] at hlast
      exact Or.inr ⟨hobj, hlast⟩
    · rw [if_neg hobj] at hlast
      exact absurd hlast List.not_mem_nil

/-- One more call behind a message that is laid out in whatever is delivered of
    it: the front part is laid out as before, and the call stands behind it. -/
theorem layout_snoc {rewrite : Nat → UInt32 → UInt32} {offs : List UInt32}
    {before chunk recv : List UInt8} {ops : List PutOp} {op : PutOp}
    (hchunk : Padded op.segments chunk) (hsmall : before.length < 2 ^ 32)
    (hin : ∀ o ∈ offs, o.toNat + 16 ≤ before.length)
    (hlay : ∀ recv, Delivered offs rewrite before recv →
      Layout rewrite recv offs ops before.length)
    (h : Delivered (offs ++ if op.isObject then [UInt32.ofNat before.length] else []) rewrite
      (before ++ chunk) recv) :
    Layout rewrite recv (offs ++ if op.isObject then [UInt32.ofNat before.length] else [])
      (ops ++ [op]) (before.length + op.encodedSize) := by
  have hlen := h.length
  rw [List.length_append, padded_size op chunk hchunk] at hlen
  have hpos : (UInt32.ofNat before.length).toNat = before.length := by
    rw [UInt32.toNat_ofNat']
    omega
  have hfront : Delivered offs rewrite before (recv.take before.length) := by
    refine delivered_take offs _ rewrite before chunk recv hin (fun o ho => ?_)
      (List.subset_append_left _ _) h
    rcases mem_recorded ho with hold | ⟨_, rfl⟩
    · exact Or.inl hold
    · exact Or.inr (by omega)
  have hbefore := layout_of_take rewrite recv offs
    (offs ++ if op.isObject then [UInt32.ofNat before.length] else []) before.length ops _
    (List.subset_append_left _ _) (hlay _ hfront)
  exact Layout.snoc ops op before.length hbefore
    (holds_of_delivered rewrite offs before chunk recv op hchunk hsmall hin h) (by omega)

/-- Calls written without overflow are laid out in whatever the driver delivers
    of their payload. The offsets recorded on the way leave room for their
    objects, which is what keeps later pieces apart from them. -/
theorem layout_of_puts (io : IoData) (rewrite : Nat → UInt32 → UInt32) (ops : List PutOp) :
    ∀ p, puts ops (Parcel.new io) = some p → p.flags.overflow = false →
      (∀ o ∈ p.offsets, o.toNat + 16 ≤ p.payload.length) ∧
      p.payload.length = totalSize ops ∧
      ∀ recv, Delivered p.offsets rewrite p.payload recv →
        Layout rewrite recv p.offsets ops p.payload.length := by
  -- The induction is on the calls, last one first, since each appends behind the others.
  induction ops using List.reverseRecOn with
  | nil =>
      intro p hp _
      simp only [puts, Option.some.injEq] at hp
      subst hp
      refine ⟨fun o ho => ?_, rfl, fun recv _ => Layout.nil⟩
      rw [offsets_new] at ho
      exact absurd ho List.not_mem_nil
  | append_singleton ops op ih =>
      intro p hp hclear
      rcases puts_snoc ops op _ p (writer_new io) hp hclear with ⟨q, hq, hWq, hqclear, hwrote⟩
      rcases ih q hq hqclear with ⟨hin, hsize, hlay⟩
      rcases hwrote.wrote hclear with ⟨chunk, hchunk, hpay, hoff⟩
      have hqlen := payload_length q hWq
      have hroom := hWq.room
      have havail := hWq.avail
      have hqpos : (UInt32.ofNat q.data).toNat = q.data := by
        rw [UInt32.toNat_ofNat']
        omega
      have hlen : p.payload.length = q.payload.length + op.encodedSize := by
        rw [hpay, List.length_append, padded_size op chunk hchunk]
      refine ⟨fun o ho => ?_, ?_, fun recv hrecv => ?_⟩
      · rw [hoff] at ho
        rcases mem_recorded ho with hold | ⟨hobj, rfl⟩
        · have := hin o hold
          omega
        -- The new object lies inside the payload it has just lengthened.
        · have := object_size op hobj
          omega
      · rw [hlen, totalSize_snoc, hsize]
      · rw [hpay, hoff, ← hqlen] at hrecv
        rw [hlen, hoff, ← hqlen]
        exact layout_snoc hchunk (by omega) hin hlay hrecv

/-- A string below the limit takes its length word and its padded characters,
    and the size computed from the length word is theirs. -/
theorem string_reads {msg : List UInt8} {offs : List UInt32} {k : Nat} {p : Parcel}
    (hR : Reader msg offs k p) (unit : UInt32) (n : Nat) (bytes : List UInt8)
    (hsize : UInt32.ofNat bytes.length = (UInt32.ofNat n + 1) * unit)
    (hlen : bytes.length + 3 < 2 ^ 31) (hlim : ¬ UInt32.ofNat n ≥ maxBioSize / unit)
    (hsegs : SegsAt msg k (PutOp.stringSegments unit (some (UInt32.ofNat n, bytes))))
    (hle : k + ((PutOp.stringSegments unit (some (UInt32.ofNat n, bytes))).map
      fun seg => alignNat seg.length).sum ≤ msg.length) :
    ∃ p', p.getString unit = some ((some (k + 4), UInt32.ofNat n), p') ∧
      bytes <+: p'.buf.drop (k + 4) ∧
      Reader msg offs (k + ((PutOp.stringSegments unit (some (UInt32.ofNat n, bytes))).map
        fun seg => alignNat seg.length).sum) p' := by
  have hwordsize : alignNat (le32 (UInt32.ofNat n)).length = 4 := by
    rw [le32_length]
    rfl
  -- The size computed from the length word has not wrapped.
  have hbytes : ((UInt32.ofNat n + 1) * unit).toNat = bytes.length := by
    rw [← hsize, UInt32.toNat_ofNat']
    omega
  -- The two pieces together: the word, then the padded characters.
  have htotal : k + ((PutOp.stringSegments unit (some (UInt32.ofNat n, bytes))).map
      fun seg => alignNat seg.length).sum = k + 4 + alignNat bytes.length := by
    simp only [PutOp.stringSegments, if_neg hlim, List.map_cons, List.map_nil, List.sum_cons,
      List.sum_nil, hwordsize]
    omega
  rw [htotal] at hle ⊢
  simp only [PutOp.stringSegments, if_neg hlim, SegsAt, hwordsize] at hsegs
  rcases getString_reader hR unit (UInt32.ofNat n) hsegs.1 (by omega) (by rw [hbytes]; exact hle)
    with ⟨p', hget, hR'⟩
  rw [hbytes] at hR'
  exact ⟨p', hget, reader_stands hR' hsegs.2.1, hR'⟩

theorem not_ge_of_lt (n : Nat) (limit : UInt32) (h : n < limit.toNat) : ¬ UInt32.ofNat n ≥ limit := by
  have hlt := limit.toNat_lt
  rw [ge_iff_le, UInt32.le_iff_toNat_le, UInt32.toNat_ofNat']
  omega

/-- A string of half words is read back, whichever of the two writers wrote
    it. -/
theorem string16_reads {msg : List UInt8} {offs : List UInt32} {k : Nat} {p : Parcel}
    (hR : Reader msg offs k p) (units : List UInt16) (n : Nat) (hn : units.length = n)
    (hsmall : n < 2 ^ 29)
    (hsegs : SegsAt msg k
      (PutOp.stringSegments 2 (some (UInt32.ofNat n, (units ++ [0]).flatMap le16))))
    (hle : k + ((PutOp.stringSegments 2 (some (UInt32.ofNat n, (units ++ [0]).flatMap le16))).map
      fun seg => alignNat seg.length).sum ≤ msg.length) :
    ∃ p', GetOp.string16.apply p = some (.string16 (some (units ++ [0])) (UInt32.ofNat n), p') ∧
      Reader msg offs
        (k + ((PutOp.stringSegments 2 (some (UInt32.ofNat n, (units ++ [0]).flatMap le16))).map
          fun seg => alignNat seg.length).sum) p' := by
  have hlen : (units ++ [0]).length = n + 1 := by
    rw [List.length_append, List.length_singleton, hn]
  have hbytes := flatMap_le16_length (units ++ [0])
  -- The length survives as a word because it is below the limit.
  have htoNat : (UInt32.ofNat n).toNat = n := by
    rw [UInt32.toNat_ofNat']
    omega
  rcases string_reads hR 2 n _ (string16_size units n hn) (by omega)
    (not_ge_of_lt _ _ (by rw [maxBioSize_div_two]; exact hsmall)) hsegs hle with
    ⟨p', hget, ⟨rest, hrest⟩, hR'⟩
  refine ⟨p', ?_, hR'⟩
  simp only [GetOp.apply, Parcel.getString16, hget, Option.map_some, htoNat, ← hlen, ← hrest,
    units16_flatMap]

/-- An object of the type that is asked for yields what the driver left in it. -/
theorem object_reads {msg : List UInt8} {offs : List UInt32} {k : Nat} {p : Parcel}
    (rewrite : Nat → UInt32 → UInt32) (hR : Reader msg offs k p) (op : PutOp)
    (hobj : op.isObject = true) (hop : Holds rewrite msg offs k op)
    (hle : k + op.encodedSize ≤ msg.length) :
    ∃ p', Parcel.getObjOf op.receivedType p = some (rewrite k op.objectValue, p') ∧
      Reader msg offs (k + op.encodedSize) p' := by
  rw [object_size op hobj] at hle ⊢
  unfold Holds at hop
  rw [if_pos hobj] at hop
  exact getObjOf_reader hR op.receivedType _ hop.1 hle hop.2.1 hop.2.2

/-- The matching getter reads a wire form back and moves past it. -/
theorem holds_reads {msg : List UInt8} {offs : List UInt32} {k : Nat} {p : Parcel}
    (rewrite : Nat → UInt32 → UInt32) (hR : Reader msg offs k p) (op : PutOp)
    (hproper : op.Proper) (hop : Holds rewrite msg offs k op)
    (hle : k + op.encodedSize ≤ msg.length) :
    ∃ p', op.getter.apply p = some (op.expected (rewrite k), p') ∧
      Reader msg offs (k + op.encodedSize) p' := by
  -- One case per writer, each with the getter that matches it.
  cases op with
  | uint32 iVal =>
      have hsize : (PutOp.uint32 iVal).encodedSize = 4 := encodedSize_word _ iVal rfl
      rcases getUint32_reader hR iVal hop.1 with ⟨p', hget, hR'⟩
      rw [hsize]
      exact ⟨p', by simp only [PutOp.getter, GetOp.apply, hget, Option.map_some, PutOp.expected],
        hR'⟩
  | string8 str =>
      rcases hproper with ⟨s, rfl, hs⟩
      have hlen : (s.chars ++ [0]).length = s.chars.length + 1 := by
        rw [List.length_append, List.length_cons, List.length_nil]
      rcases string_reads hR 1 s.chars.length (s.chars ++ [0]) (string8_size s.chars) (by omega)
        (not_ge_of_lt _ _ (by rw [maxBioSize_div_one]; exact hs)) hop hle with
        ⟨p', hget, hchars, hR'⟩
      have hn : (UInt32.ofNat s.chars.length).toNat = s.chars.length := by
        rw [UInt32.toNat_ofNat']
        omega
      refine ⟨p', ?_, hR'⟩
      simp only [PutOp.getter, GetOp.apply, Parcel.getString8, hget, Option.map_some,
        PutOp.expected, Option.getD_some, hn, ← hlen]
      rw [← List.prefix_iff_eq_take.mp hchars]
  | string16 str =>
      rcases hproper with ⟨s, rfl, hs⟩
      exact string16_reads hR s.units _ rfl hs hop hle
  | string16X str =>
      rcases hproper with ⟨s, rfl, hs⟩
      exact string16_reads hR (s.chars.map UInt8.toUInt16) _ (List.length_map _) hs hop hle
  | fd iFd =>
      rcases object_reads rewrite hR _ rfl hop hle with
        ⟨p', (hget : Parcel.getObjOf binderTypeFd p = some (rewrite k iFd, p')), hR'⟩
      exact ⟨p', by simp only [PutOp.getter, GetOp.apply, Parcel.getFd, hget, Option.map_some,
        PutOp.expected], hR'⟩
  -- A binder was written, but a handle is what arrives and what is asked for.
  | obj ptr =>
      rcases object_reads rewrite hR _ rfl hop hle with
        ⟨p', (hget : Parcel.getObjOf binderTypeHandle p = some (rewrite k ptr, p')), hR'⟩
      exact ⟨p', by simp only [PutOp.getter, GetOp.apply, Parcel.getRef, hget, Option.map_some,
        PutOp.expected], hR'⟩
  | ref iHandle =>
      have hobj : (PutOp.ref iHandle).isObject = true := by
        simp only [PutOp.isObject, ne_eq, decide_not, Bool.not_eq_true', decide_eq_false_iff_not]
        exact hproper
      rcases object_reads rewrite hR _ hobj hop hle with
        ⟨p', (hget : Parcel.getObjOf binderTypeHandle p = some (rewrite k iHandle, p')), hR'⟩
      exact ⟨p', by simp only [PutOp.getter, GetOp.apply, Parcel.getRef, hget, Option.map_some,
        PutOp.expected], hR'⟩

/-- A layout is read back call by call. -/
theorem gets_of_layout {msg : List UInt8} {offs : List UInt32} {p : Parcel}
    (rewrite : Nat → UInt32 → UInt32) (hR : Reader msg offs 0 p) (ops : List PutOp) (k : Nat)
    (hproper : ∀ op ∈ ops, op.Proper) (h : Layout rewrite msg offs ops k) :
    k = totalSize ops ∧ ∃ p', gets (ops.map PutOp.getter) p = some (expectedFrom rewrite 0 ops, p') ∧
      Reader msg offs k p' := by
  induction h with
  | nil => exact ⟨rfl, p, rfl, hR⟩
  | snoc ops op k _ hop hle ih =>
      rcases ih (fun o ho => hproper o (List.mem_append_left _ ho)) with ⟨hk, q, hq, hRq⟩
      have hlast := hproper op (List.mem_append_right _ (List.mem_singleton_self op))
      -- The reader stands where the layout puts the last call.
      rcases holds_reads rewrite hRq op hlast hop hle with ⟨p', hget, hR'⟩
      refine ⟨by rw [totalSize_snoc, hk], p', ?_, hR'⟩
      simp only [List.map_append, List.map_singleton, gets_snoc, hq, Option.bind_some, hget,
        Option.map_some, expectedFrom_snoc, Nat.zero_add, ← hk]

/-- The driver's side of one listed object: a binder becomes a handle. -/
def deliverObject (handle : UInt32) (msg : List UInt8) (o : UInt32) : List UInt8 :=
  if load32 (msg.drop o.toNat) = some binderTypeBinder then
    splice (o.toNat + 8) (le32 handle) (splice o.toNat (le32 binderTypeHandle) msg)
  else msg

/-- A driver that copies a message and turns every binder in it into the
    handle. -/
def deliver (handle : UInt32) (offs : List UInt32) (msg : List UInt8) : List UInt8 :=
  offs.foldl (deliverObject handle) msg

theorem delivered_nil (rewrite : Nat → UInt32 → UInt32) (msg : List UInt8) :
    Delivered [] rewrite msg msg :=
  ⟨rfl, fun _ _ => rfl, fun _ ho => absurd ho List.not_mem_nil,
    fun _ ho => absurd ho List.not_mem_nil⟩

/-- A message without binders is delivered unchanged. -/
theorem delivered_refl (offs : List UInt32) (msg : List UInt8)
    (hnone : ∀ o ∈ offs, ¬ le32 binderTypeBinder <+: msg.drop o.toNat) :
    Delivered offs (fun _ v => v) msg msg := by
  refine ⟨rfl, fun _ _ => rfl, fun o ho t ht => ?_, fun _ _ _ hv => hv⟩
  -- A type that stands in a listed object is not the binder type.
  have hne : t ≠ binderTypeBinder := fun hc => hnone o ho (hc ▸ ht)
  rw [deliveredType, if_neg hne]
  exact ht

/-- A message whose only object is a binder is delivered with the handle in its
    place. -/
theorem delivered_binder (handle o : UInt32) (msg : List UInt8)
    (hin : o.toNat + 16 ≤ msg.length) (hbinder : le32 binderTypeBinder <+: msg.drop o.toNat) :
    Delivered [o] (fun _ _ => handle) msg (deliverObject handle msg o) := by
  have hload := (load32_iff_le32 _ _).mpr hbinder
  have hlen : (splice o.toNat (le32 binderTypeHandle) msg).length = msg.length :=
    splice_length _ _ _ (by rw [le32_length]; omega)
  rw [deliverObject, if_pos hload]
  refine ⟨?_, fun i hi => ?_, fun o' ho t ht => ?_, fun o' ho v _ => ?_⟩
  · rw [splice_length _ _ _ (by rw [hlen, le32_length]; omega), hlen]
  -- Outside the two fields both stores leave the message alone.
  · have := hi o (List.mem_singleton_self o)
    rw [getElem?_splice_of_not_mem _ _ _ _ (by rw [le32_length]; omega)
        (by rw [hlen, le32_length]; omega),
      getElem?_splice_of_not_mem _ _ _ _ (by rw [le32_length]; omega)
        (by rw [le32_length]; omega)]
  · rw [List.mem_singleton] at ho
    subst ho
    -- The type sent is the binder type, since that is what stands there.
    have htype : t = binderTypeBinder := by
      have := (load32_iff_le32 _ _).mpr ht
      rw [hload, Option.some.injEq] at this
      exact this.symm
    rw [htype, deliveredType_binder]
    exact prefix_splice_of_le _ _ _ _ (by rw [le32_length]; omega)
      (by rw [hlen, le32_length]; omega) (prefix_splice_self _ _ _ (by rw [le32_length]; omega))
  · rw [List.mem_singleton] at ho
    subst ho
    exact prefix_splice_self _ _ _ (by rw [hlen, le32_length]; omega)

/-- Decode undoes encode: what proper calls wrote without overflow, the matching
    calls read back from whatever the driver delivers, to the last byte. -/
theorem gets_puts (io : IoData) (ops : List PutOp) (sent : Parcel)
    (rewrite : Nat → UInt32 → UInt32) (recv : List UInt8) (mem : Mapping) (txn : Txn)
    (hputs : puts ops (Parcel.new io) = some sent) (hclear : sent.flags.overflow = false)
    (hproper : ∀ op ∈ ops, op.Proper)
    (hrecv : Delivered sent.offsets rewrite sent.payload recv)
    (htxn : Carries mem txn recv sent.offsets) :
    ∃ p, gets (ops.map PutOp.getter) (Parcel.bioInitFromTxn mem txn)
        = some (expectedFrom rewrite 0 ops, p) ∧
      p.flags.overflow = false ∧ p.dataAvail = 0 := by
  rcases layout_of_puts io rewrite ops sent hputs hclear with ⟨_, hsize, hlay⟩
  -- The payload is no larger than the area, so its size is no negative `int`.
  have hbound := payload_length_le sent (writer_of_puts hputs)
  have hR := reader_init mem txn recv sent.offsets htxn (by rw [hrecv.length]; omega)
  rcases gets_of_layout rewrite hR ops _ hproper (hlay recv hrecv) with ⟨_, p, hget, hRp⟩
  refine ⟨p, hget, hRp.clear, ?_⟩
  rw [hRp.room, hrecv.length, Int.sub_self]

def sampleName : CString := uniformString 1 (by decide)

/-- A request of three fields, written over zeroed memory. -/
def sampleCalls : List PutOp :=
  [.uint32 7, .string8 (some sampleName), .obj 9]

def sampleIo : IoData := { addr := 0x1000, bytes := fun _ => 0, words := fun _ => 0 }

/-- The same request as it arrives, the binder replaced by handle 3. -/
def sampleBytes : List UInt8 :=
  [7, 0, 0, 0, 1, 0, 0, 0, 0x61, 0, 0, 0, 0x85, 0x2a, 0x68, 0x73, 0x7f, 1, 0, 0, 3, 0, 0, 0,
    0, 0, 0, 0]

def sampleTxn : Txn :=
  { target := 0, cookie := 0, code := 3, flags := 0, senderPid := 1, senderEuid := 0,
    dataSize := 28, offsetsSize := 4, buffer := 0x4000, offsets := 0x401c }

theorem gets_puts_sample :
    ∃ p, gets [.uint32, .string8, .ref]
        (Parcel.bioInitFromTxn ⟨fun _ => sampleBytes, fun _ => [12]⟩ sampleTxn)
        = some ([.word 7, .string8 (some [0x61, 0]) 1, .word 3], p) ∧
      p.flags.overflow = false ∧ p.dataAvail = 0 := by
  -- The calls are run once, and what they left is read off.
  have hrun : (puts sampleCalls (Parcel.new sampleIo)).map
      (fun p => (p.flags.overflow, p.offsets, (le32 binderTypeBinder).isPrefixOf (p.payload.drop 12),
        p.payload.length, deliverObject 3 p.payload 12))
      = some (false, [12], true, 28, sampleBytes) := by decide +kernel
  rcases Option.map_eq_some_iff.mp hrun with ⟨sent, hputs, hfacts⟩
  simp only [Prod.mk.injEq, List.isPrefixOf_iff_prefix] at hfacts
  rcases hfacts with ⟨hclear, hoffs, hbinder, hlen, hrecv⟩
  have hdelivered := delivered_binder 3 12 sent.payload (by rw [hlen]; decide) hbinder
  rw [hrecv, ← hoffs] at hdelivered
  refine gets_puts sampleIo sampleCalls sent (fun _ _ => 3) sampleBytes _ sampleTxn hputs hclear
    ?_ hdelivered ⟨List.prefix_refl _, by simp only [hoffs, List.prefix_refl], rfl,
      by rw [hoffs]; rfl⟩
  intro op hop
  simp only [sampleCalls, List.mem_cons, List.not_mem_nil, or_false] at hop
  rcases hop with rfl | rfl | rfl
  · trivial
  · exact ⟨_, rfl, by decide⟩
  · trivial

end Binder

end ZeusOS
