import ZeusOS.Binder.Writing

/-!
# Reading a Parcel

The reading side of the wire form, stated against the bytes of the message
rather than against what wrote them. `Reader msg offs k p` says that the parcel
is a loaded message whose cursor stands `k` bytes in; each getter is then a
lemma from what stands at `k` to the value returned and the new position.

The readable memory may go on past the message. The getters never look there:
every pointer they hand out lies before `k` plus the size that was checked
against the room left.

## Main definitions

* `GetOp`, `Got`: A call of one of the `get` functions and what it yields.
* `gets`: A sequence of calls.
* `Reader`: A loaded message with its cursor.
* `SegsAt`: Pieces standing at a place in a message.

## Theorems

* `reader_init`: Loading a message.
* `get_reader`: Taking bytes that are there.
* `getUint32_reader`, `getString_reader`, `getObjOf_reader`: The getters.
* `segsAt_of_padded`: Padded pieces stand where they were appended.
-/

namespace ZeusOS

namespace Binder

open Foundation.Words

/-- A call of one of the `get` functions. -/
inductive GetOp where
  | uint32
  | string8
  | string16
  | fd
  | ref
  deriving DecidableEq, Repr

/-- What a call yields: a word, or a pointer and a size, the pointer shown as
    the `size + 1` characters found there. -/
inductive Got where
  | word (v : UInt32)
  | string8 (str : Option (List UInt8)) (size : UInt32)
  | string16 (str : Option (List UInt16)) (size : UInt32)
  deriving DecidableEq, Repr

def GetOp.apply : GetOp → Parcel → Option (Got × Parcel)
  | uint32, p => p.getUint32.map fun (v, p) => (.word v, p)
  | string8, p => p.getString8.map fun ((ptr, size), p) =>
      (.string8 (ptr.map fun ptr => (p.buf.drop ptr).take (size.toNat + 1)) size, p)
  | string16, p => p.getString16.map fun ((ptr, size), p) =>
      (.string16 (ptr.map fun ptr => units16 (size.toNat + 1) (p.buf.drop ptr)) size, p)
  | fd, p => p.getFd.map fun (v, p) => (.word v, p)
  | ref, p => p.getRef.map fun (v, p) => (.word v, p)

/-- A sequence of `get` calls. -/
def gets : List GetOp → Parcel → Option (List Got × Parcel)
  | [], p => some ([], p)
  | op :: ops, p => (op.apply p).bind fun (v, p) => (gets ops p).map fun (vs, p) => (v :: vs, p)

-- The layout below grows at its end, so the calls are taken off there.
theorem gets_snoc (ops : List GetOp) (op : GetOp) (p : Parcel) :
    gets (ops ++ [op]) p = (gets ops p).bind fun (vs, p) =>
      (op.apply p).map fun (v, p) => (vs ++ [v], p) := by
  induction ops generalizing p with
  | nil =>
      simp only [List.nil_append, gets, Option.bind_some]
      rcases op.apply p with _ | ⟨v, q⟩ <;> rfl
  | cons op' ops ih =>
      simp only [List.cons_append, gets]
      rcases op'.apply p with _ | ⟨v, q⟩
      · rfl
      · simp only [Option.bind_some, ih]
        rcases gets ops q with _ | ⟨vs, r⟩
        · rfl
        · simp only [Option.bind_some, Option.map_some]
          rcases op.apply r with _ | ⟨v', r'⟩ <;> rfl

theorem gets_cons_some {op : GetOp} {ops : List GetOp} {gots : List Got} {msg msg' : Parcel}
    (h : gets (op :: ops) msg = some (gots, msg')) :
    ∃ got q rest, op.apply msg = some (got, q) ∧ gets ops q = some (rest, msg') ∧
      gots = got :: rest := by
  simp only [gets, Option.bind_eq_some_iff, Option.map_eq_some_iff, Prod.mk.injEq, Prod.exists] at h
  rcases h with ⟨got, q, happly, rest, _, hrest, rfl, rfl⟩
  exact ⟨got, q, rest, happly, hrest, rfl⟩

/-- A loaded message: the areas start with the message and its offsets, and
    the cursor stands `k` bytes in. -/
structure Reader (msg : List UInt8) (offs : List UInt32) (k : Nat) (p : Parcel) : Prop where
  buf : msg <+: p.buf
  tab : offs <+: p.tab
  start : p.offs = 0
  slots : p.offsAvail = offs.length
  data : p.data = k
  room : p.dataAvail = (msg.length : Int) - k
  le : k ≤ msg.length
  small : msg.length < 2 ^ 31
  clear : p.flags.overflow = false

/-- The transaction describes this message and these offsets, and the mapping
    holds them. -/
structure Carries (mem : Mapping) (txn : Txn) (msg : List UInt8) (offs : List UInt32) : Prop where
  bytes : msg <+: mem.bytes txn.buffer
  words : offs <+: mem.words txn.offsets
  dataSize : txn.dataSize.toNat = msg.length
  offsetsSize : txn.offsetsSize.toNat = 4 * offs.length

theorem reader_init (mem : Mapping) (txn : Txn) (msg : List UInt8) (offs : List UInt32)
    (h : Carries mem txn msg offs) (hsmall : msg.length < 2 ^ 31) :
    Reader msg offs 0 (Parcel.bioInitFromTxn mem txn) := by
  have hsize := h.dataSize
  have hlt := txn.offsetsSize.toNat_lt
  have hoffs := h.offsetsSize
  have hslots : (txn.offsetsSize / 4).toNat = offs.length := by
    rw [UInt32.toNat_div]
    change txn.offsetsSize.toNat / 4 = _
    omega
  refine ⟨h.bytes, h.words, rfl, ?_, rfl, ?_, Nat.zero_le _, hsmall, rfl⟩
  · simp only [Parcel.bioInitFromTxn]
    rw [toInt_of_lt _ (by omega), hslots]
  · simp only [Parcel.bioInitFromTxn]
    -- The size stays below the sign bit, or the message could not be read at all.
    rw [toInt_of_lt _ (by omega), hsize]
    omega

variable {msg : List UInt8} {offs : List UInt32} {k : Nat} {p : Parcel}

/-- What stands in the message stands in the memory. -/
theorem reader_stands (hR : Reader msg offs k p) {seg : List UInt8} {i : Nat}
    (h : seg <+: msg.drop i) : seg <+: p.buf.drop i :=
  h.trans (drop_prefix_drop hR.buf i)

/-- Taking bytes that are there moves the cursor past them. -/
theorem get_reader (hR : Reader msg offs k p) (size : UInt32) (hs : size.toNat + 3 < 2 ^ 32)
    (h : k + alignNat size.toNat ≤ msg.length) :
    ∃ p', p.get size = (some k, p') ∧ p'.buf = p.buf ∧
      Reader msg offs (k + alignNat size.toNat) p' := by
  have hsmall := hR.small
  have hroom := hR.room
  have hsize := alignSize_toNat size hs
  have hu := toUnsigned_toNat_of_nonneg p.dataAvail (by omega) (by omega)
  -- The room left is not negative, so its conversion keeps it.
  have hlt : ¬ toUnsigned p.dataAvail < Parcel.alignSize size := by
    rw [UInt32.lt_iff_toNat_lt]
    omega
  refine ⟨p.advance (Parcel.alignSize size), ?_, rfl, ?_⟩
  · rw [Parcel.get, if_neg hlt, hR.data]
  · refine ⟨hR.buf, hR.tab, hR.start, hR.slots, ?_, ?_, h, hsmall, hR.clear⟩
    · simp only [Parcel.advance]
      rw [hR.data, hsize]
    · simp only [Parcel.advance]
      rw [toInt_sub _ _ (by omega) (by omega), hsize]
      omega

theorem prefix_length_le {seg msg : List UInt8} {i : Nat} (hseg : 0 < seg.length)
    (h : seg <+: msg.drop i) : i + seg.length ≤ msg.length := by
  have := h.length_le
  rw [List.length_drop] at this
  omega

theorem getUint32_reader (hR : Reader msg offs k p) (w : UInt32) (h : le32 w <+: msg.drop k) :
    ∃ p', p.getUint32 = some (w, p') ∧ Reader msg offs (k + 4) p' := by
  have hle := prefix_length_le (by rw [le32_length]; decide) h
  rw [le32_length] at hle
  have halign : alignNat (4 : UInt32).toNat = 4 := rfl
  rcases get_reader hR 4 (by decide) (by rw [halign]; exact hle) with ⟨p', hget, hbuf, hR'⟩
  rw [halign] at hR'
  refine ⟨p', ?_, hR'⟩
  -- What the pointer designates is the word that stands at the cursor.
  have hload : load32 (p'.buf.drop k) = some w := by
    rw [hbuf, load32_iff_le32]
    exact reader_stands hR h
  rw [Parcel.getUint32, hget]
  simp only [hload, Option.map_some]

theorem getString_reader (hR : Reader msg offs k p) (unit len : UInt32)
    (hword : le32 len <+: msg.drop k) (hs : ((len + 1) * unit).toNat + 3 < 2 ^ 32)
    (h : k + 4 + alignNat ((len + 1) * unit).toNat ≤ msg.length) :
    ∃ p', p.getString unit = some ((some (k + 4), len), p') ∧
      Reader msg offs (k + 4 + alignNat ((len + 1) * unit).toNat) p' := by
  -- The length word first, then as many characters as it says.
  rcases getUint32_reader hR len hword with ⟨q, hq, hRq⟩
  rcases get_reader hRq _ hs h with ⟨p', hget, _, hR'⟩
  refine ⟨p', ?_, hR'⟩
  rw [Parcel.getString, hq]
  simp only [Option.map_some, hget]

/-- The search finds an entry exactly when the offsets hold it. -/
theorem searchOffs_eq (off : UInt32) (offs rest : List UInt32) :
    Parcel.searchOffs off offs.length (offs ++ rest) = some (decide (off ∈ offs)) := by
  induction offs with
  | nil => rfl
  | cons entry offs ih =>
      simp only [List.length_cons, List.cons_append, Parcel.searchOffs, List.mem_cons]
      -- The loop stops at the first entry that matches.
      by_cases h : entry = off
      · rw [if_pos h]
        simp only [h, true_or, decide_true]
      · rw [if_neg h, ih]
        simp only [show ¬ off = entry from fun hc => h hc.symm, false_or]

theorem getObj_reader (hR : Reader msg offs k p) (hmem : UInt32.ofNat k ∈ offs)
    (h : k + 16 ≤ msg.length) :
    ∃ p', p.getObj = some (some k, p') ∧ p'.buf = p.buf ∧ Reader msg offs (k + 16) p' := by
  have halign : alignNat (16 : UInt32).toNat = 16 := rfl
  rcases get_reader hR 16 (by decide) (by rw [halign]; exact h) with ⟨p', hget, hbuf, hR'⟩
  rw [halign] at hR'
  refine ⟨p', ?_, hbuf, hR'⟩
  -- The entries the loop looks at are those of the message and none behind them.
  rcases hR.tab with ⟨rest, hrest⟩
  rw [Parcel.getObj, hR.data, hR.slots, hR.start, List.drop_zero, ← hrest, Int.toNat_natCast,
    searchOffs_eq]
  simp only [hmem, decide_true, Option.map_some, if_true, hget]

/-- An object of the expected type yields its value. -/
theorem getObjOf_reader (hR : Reader msg offs k p) (type value : UInt32)
    (hmem : UInt32.ofNat k ∈ offs) (h : k + 16 ≤ msg.length)
    (htype : le32 type <+: msg.drop k) (hvalue : le32 value <+: msg.drop (k + 8)) :
    ∃ p', Parcel.getObjOf type p = some (value, p') ∧ Reader msg offs (k + 16) p' := by
  rcases getObj_reader hR hmem h with ⟨p', hget, hbuf, hR'⟩
  refine ⟨p', ?_, hR'⟩
  -- Reading the object moved only the cursor, so its fields stand where they stood.
  have ht : load32 (p'.buf.drop k) = some type := by
    rw [hbuf, load32_iff_le32]
    exact reader_stands hR htype
  have hv : load32 (p'.buf.drop (k + 8)) = some value := by
    rw [hbuf, load32_iff_le32]
    exact reader_stands hR hvalue
  rw [Parcel.getObjOf, hget]
  simp only [Option.bind_some, ht, if_true, hv, Option.map_some]

/-- A message without objects yields no handle. -/
theorem getRef_plain {msg : List UInt8} {k : Nat} {p : Parcel} (hR : Reader msg [] k p) :
    ∃ p', p.getRef = some (0, p') := by
  -- Without slots the search loop does not turn once.
  rw [Parcel.getRef, Parcel.getObjOf, Parcel.getObj, hR.slots]
  exact ⟨_, rfl⟩

/-- Past the end of a message there are only zeros, and the overflow bit tells. -/
theorem getUint32_end (hR : Reader msg offs msg.length p) :
    ∃ p', p.getUint32 = some (0, p') ∧ p'.flags.overflow = true := by
  have hroom := hR.room
  rw [Int.sub_self] at hroom
  have hshort : toUnsigned p.dataAvail < Parcel.alignSize 4 := by
    rw [hroom]
    decide
  rw [Parcel.getUint32, Parcel.get, if_pos hshort]
  exact ⟨_, rfl, rfl⟩

/-- Pieces standing one after another from a place in a message on, each taking
    its size rounded up to a multiple of four. -/
def SegsAt (msg : List UInt8) : Nat → List (List UInt8) → Prop
  | _, [] => True
  | k, seg :: segs => seg <+: msg.drop k ∧ SegsAt msg (k + alignNat seg.length) segs

theorem segsAt_of_take (n : Nat) (segs : List (List UInt8)) :
    ∀ k, SegsAt (msg.take n) k segs → SegsAt msg k segs := by
  induction segs with
  | nil => exact fun _ h => h
  | cons seg segs ih => exact fun k h => ⟨prefix_of_take seg msg n k h.1, ih _ h.2⟩

/-- Padded pieces stand where they were appended. -/
theorem segsAt_of_padded (segs : List (List UInt8)) (chunk : List UInt8) (h : Padded segs chunk) :
    ∀ before : List UInt8, SegsAt (before ++ chunk) before.length segs := by
  induction h with
  | nil => exact fun _ => trivial
  | cons seg pad segs rest hpad _ ih =>
      intro before
      -- The first piece stands right behind what came before, the others behind its padding.
      constructor
      · rw [List.drop_left, List.append_assoc]
        exact List.prefix_append _ _
      · have := ih (before ++ (seg ++ pad))
        rwa [List.length_append, hpad, List.append_assoc] at this

end Binder

end ZeusOS
