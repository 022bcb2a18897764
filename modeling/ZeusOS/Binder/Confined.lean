import ZeusOS.Binder.Inspect
import ZeusOS.Binder.Reading

/-!
# Reading Stays Inside

Any sequence of `get` calls on any message. The cursor starts with the message,
moves on by multiples of four and never past the end; what the getters
dereference on the way lies in the payload. The first call that finds too
little raises the overflow flag and takes the room that was left, so that every
call behind it finds too little as well.

A string is another matter. Its size is the length word plus one, times the
size of a character, rounded up, and each of the three may wrap around. A
string whose size wraps to nothing is handed out wherever the cursor stands,
with the length it was sent with.

## Main definitions

* `GetOp.derefs`: What a call dereferences.
* `Readable`: A message whose payload and offsets can be read.
* `Confined`: A parcel that reads a message within its bounds, and nothing more
  once the flag is up.
* `Onward`: How a call moves the cursor.
* `Got.Empty`: What a call yields behind the end.

## Theorems

* `apply_derefs`: A call succeeds if what it dereferences is there.
* `apply_confined`: One call stays inside.
* `gets_confined`: A sequence of calls stays inside.
* `reading_confined`: Reading is confined and fails for good.
* `getString_granted`: A string whose size is granted.
* `string_inside_iff`: When a string lies in its message.
-/

namespace ZeusOS

namespace Binder

open Foundation.Words

/-- The word a getter takes first, as a place and a size. -/
def Parcel.wordDerefs (p : Parcel) : List (Nat × Nat) :=
  match p.get 4 with
  | (some ptr, _) => [(ptr, 4)]
  | (none, _) => []

/-- The object a getter takes. -/
def Parcel.objDerefs (p : Parcel) : List (Nat × Nat) :=
  match p.getObj with
  | some (some obj, _) => [(obj, 16)]
  | _ => []

/-- What a call dereferences of the data area. Of a string that is its length
    word, the characters are only pointed at. -/
def GetOp.derefs : GetOp → Parcel → List (Nat × Nat)
  | uint32, p => p.wordDerefs
  | string8, p => p.wordDerefs
  | string16, p => p.wordDerefs
  | fd, p => p.objDerefs
  | ref, p => p.objDerefs

/-- The payload and the offsets of the message are there to be read. Whether
    anything is behind them is left open. -/
structure Readable (mem : Mapping) (txn : Txn) : Prop where
  bytes : txn.dataSize.toNat ≤ (mem.bytes txn.buffer).length
  words : (txn.offsetsSize / 4).toNat ≤ (mem.words txn.offsets).length

/-- A zero, or a null pointer. -/
def Got.Empty : Got → Prop
  | .word v => v = 0
  | .string8 str _ => str = none
  | .string16 str _ => str = none

theorem searchOffs_isSome {off : UInt32} {n : Nat} {tab : List UInt32} (h : n ≤ tab.length) :
    ∃ found, Parcel.searchOffs off n tab = some found := by
  induction n generalizing tab with
  | zero => exact ⟨false, rfl⟩
  | succ n ih =>
      cases tab with
      | nil => exact absurd h (Nat.not_succ_le_zero n)
      | cons entry rest =>
          rw [List.length_cons] at h
          by_cases heq : entry = off
          · exact ⟨true, by simp only [Parcel.searchOffs, if_pos heq]⟩
          · rcases ih (Nat.le_of_succ_le_succ h) with ⟨found, hfound⟩
            exact ⟨found, by simp only [Parcel.searchOffs, if_neg heq, hfound]⟩

theorem getUint32_derefs {p : Parcel} (h : ∀ d ∈ p.wordDerefs, d.1 + d.2 ≤ p.buf.length) :
    ∃ w q, p.getUint32 = some (w, q) := by
  unfold Parcel.wordDerefs at h
  unfold Parcel.getUint32
  rcases get_cases p 4 with ⟨_, hget⟩ | ⟨_, hget⟩
  · rw [hget]
    exact ⟨_, _, rfl⟩
  · rw [hget] at h ⊢
    have hin := h (p.data, 4) (List.mem_singleton_self _)
    have hbuf : 4 ≤ ((p.advance (Parcel.alignSize 4)).buf.drop p.data).length := by
      rw [List.length_drop]
      change 4 ≤ p.buf.length - p.data
      omega
    rcases load32_isSome hbuf with ⟨w, hw⟩
    simp only [hw, Option.map_some]
    exact ⟨_, _, rfl⟩

theorem getString_derefs {p : Parcel} (unit : UInt32)
    (h : ∀ d ∈ p.wordDerefs, d.1 + d.2 ≤ p.buf.length) :
    ∃ ptr len q, p.getString unit = some ((ptr, len), q) := by
  rcases getUint32_derefs h with ⟨len, q, hlen⟩
  rw [Parcel.getString, hlen]
  exact ⟨_, _, _, rfl⟩

theorem getObj_buf {p p' : Parcel} {obj : Option Nat} (h : p.getObj = some (obj, p')) :
    p'.buf = p.buf := by
  rcases getObj_cases h with ⟨_, rfl⟩ | ⟨_, rfl, _, _⟩
  · rfl
  · rfl

theorem getObjOf_derefs {p : Parcel} (type : UInt32)
    (hslots : p.offsAvail.toNat ≤ (p.tab.drop p.offs).length)
    (h : ∀ d ∈ p.objDerefs, d.1 + d.2 ≤ p.buf.length) :
    ∃ v q, p.getObjOf type = some (v, q) := by
  have hfound : ∃ obj q, p.getObj = some (obj, q) := by
    rcases searchOffs_isSome hslots with ⟨found, hfound⟩
    rw [Parcel.getObj, hfound]
    exact ⟨_, _, rfl⟩
  unfold Parcel.objDerefs at h
  rcases hfound with ⟨obj, q, hobj⟩
  rw [Parcel.getObjOf, hobj, Option.bind_some]
  cases obj with
  | none => exact ⟨0, q, rfl⟩
  | some off =>
      rw [hobj] at h
      have hin := h (off, 16) (List.mem_singleton_self _)
      -- The type and the value are two of the four words of the object.
      have htype : 4 ≤ (q.buf.drop off).length := by
        rw [List.length_drop, getObj_buf hobj]
        omega
      have hvalue : 4 ≤ (q.buf.drop (off + 8)).length := by
        rw [List.length_drop, getObj_buf hobj]
        omega
      rcases load32_isSome htype with ⟨t, ht⟩
      rcases load32_isSome hvalue with ⟨v, hv⟩
      simp only [ht, hv, Option.bind_some, Option.map_some]
      by_cases heq : t = type
      · rw [if_pos heq]
        exact ⟨v, q, rfl⟩
      · rw [if_neg heq]
        exact ⟨0, q, rfl⟩

/-- A call has a result if what it dereferences is there, and the offsets it
    looks through are. -/
theorem apply_derefs (op : GetOp) {p : Parcel}
    (hslots : p.offsAvail.toNat ≤ (p.tab.drop p.offs).length)
    (h : ∀ d ∈ op.derefs p, d.1 + d.2 ≤ p.buf.length) : ∃ got q, op.apply p = some (got, q) := by
  cases op with
  | uint32 =>
      rcases getUint32_derefs h with ⟨w, q, hget⟩
      exact ⟨.word w, q, by rw [GetOp.apply, hget, Option.map_some]⟩
  | string8 =>
      rcases getString_derefs 1 h with ⟨ptr, len, q, hget⟩
      exact ⟨_, q, by rw [GetOp.apply, Parcel.getString8, hget, Option.map_some]⟩
  | string16 =>
      rcases getString_derefs 2 h with ⟨ptr, len, q, hget⟩
      exact ⟨_, q, by rw [GetOp.apply, Parcel.getString16, hget, Option.map_some]⟩
  | fd =>
      rcases getObjOf_derefs binderTypeFd hslots h with ⟨v, q, hget⟩
      exact ⟨.word v, q, by rw [GetOp.apply, Parcel.getFd, hget, Option.map_some]⟩
  | ref =>
      rcases getObjOf_derefs binderTypeHandle hslots h with ⟨v, q, hget⟩
      exact ⟨.word v, q, by rw [GetOp.apply, Parcel.getRef, hget, Option.map_some]⟩

/-- A parcel that reads a message within its bounds, from one multiple of four
    to the next. Once the flag is up there is no room left. -/
structure Confined (mem : Mapping) (txn : Txn) (p : Parcel) : Prop extends Inside mem txn p where
  start : p.data0 = txn.buffer
  aligned : p.data % 4 = 0
  spent : p.flags.overflow = true → p.room = 0

/-- How a call moves the cursor: never back, and not at all once the flag is
    up, which then stays. -/
structure Onward (p p' : Parcel) : Prop where
  forward : p.data ≤ p'.data
  stuck : p.flags.overflow = true → p'.data = p.data ∧ p'.flags.overflow = true

theorem onward_trans {p q r : Parcel} (hpq : Onward p q) (hqr : Onward q r) : Onward p r := by
  refine ⟨Nat.le_trans hpq.forward hqr.forward, fun hov => ?_⟩
  rcases hpq.stuck hov with ⟨hq, hqov⟩
  rcases hqr.stuck hqov with ⟨hr, hrov⟩
  exact ⟨hr.trans hq, hrov⟩

variable {mem : Mapping} {txn : Txn} {p p' : Parcel}

theorem init_confined (mem : Mapping) (txn : Txn) :
    Confined mem txn (Parcel.bioInitFromTxn mem txn) :=
  ⟨init_inside mem txn, rfl, rfl, fun h => absurd h Bool.false_ne_true⟩

theorem exhausted_confined (h : Confined mem txn p) :
    Confined mem txn p.exhausted ∧ Onward p p.exhausted :=
  ⟨⟨exhausted_inside h.toInside, h.start, h.aligned, fun _ => exhausted_room p⟩,
    Nat.le_refl _, fun _ => ⟨rfl, rfl⟩⟩

theorem alignSize_mod (size : UInt32) : (Parcel.alignSize size).toNat % 4 = 0 := by
  rw [Parcel.alignSize, and_not_three_toNat]
  omega

-- With no room left only nothing can be taken, and that moves nothing.
theorem advance_confined {size : UInt32} (h : Confined mem txn p) (hmod : size.toNat % 4 = 0)
    (hroom : size ≤ p.room) : Confined mem txn (p.advance size) ∧ Onward p (p.advance size) := by
  have haligned := h.aligned
  have hzero : p.flags.overflow = true → size = 0 := by
    intro hov
    rw [h.spent hov, UInt32.le_iff_toNat_le] at hroom
    exact UInt32.toNat_inj.mp (Nat.le_zero.mp hroom)
  refine ⟨⟨advance_inside h.toInside hroom, h.start, ?_, fun hov => ?_⟩, ?_, fun hov => ⟨?_, hov⟩⟩
  · simp only [Parcel.advance]
    omega
  · rw [advance_room, h.spent hov, hzero hov]
    rfl
  · exact Nat.le_add_right _ _
  · rw [hzero hov]
    rfl

theorem get_confined (size : UInt32) (h : Confined mem txn p) :
    Confined mem txn (p.get size).2 ∧ Onward p (p.get size).2 := by
  rcases get_cases p size with ⟨_, hget⟩ | ⟨hroom, hget⟩
  · rw [hget]
    exact exhausted_confined h
  · rw [hget]
    exact advance_confined h (alignSize_mod size) hroom

/-- Without room only a request for nothing is granted. -/
theorem get_spent {size : UInt32} (h : p.room = 0) (hsize : ¬ Parcel.alignSize size ≤ 0) :
    p.get size = (none, p.exhausted) := by
  rcases get_cases p size with ⟨_, hget⟩ | ⟨hroom, _⟩
  · exact hget
  · rw [h] at hroom
    exact absurd hroom hsize

theorem getUint32_confined {w : UInt32} (h : Confined mem txn p)
    (hget : p.getUint32 = some (w, p')) :
    Confined mem txn p' ∧ Onward p p' ∧ (p.flags.overflow = true → w = 0) := by
  rcases getUint32_cases hget with ⟨_, hzero, rfl⟩ | ⟨hroom, _, rfl⟩
  · rcases exhausted_confined h with ⟨hp', hon⟩
    exact ⟨hp', hon, fun _ => hzero⟩
  · rcases advance_confined h rfl hroom with ⟨hp', hon⟩
    refine ⟨hp', hon, fun hov => ?_⟩
    rw [h.spent hov] at hroom
    exact absurd hroom (by decide)

theorem getString_confined {unit len : UInt32} {ptr : Option Nat}
    (hunit : ¬ Parcel.alignSize ((0 + 1) * unit) ≤ 0) (h : Confined mem txn p)
    (hget : p.getString unit = some ((ptr, len), p')) :
    Confined mem txn p' ∧ Onward p p' ∧ (p.flags.overflow = true → ptr = none) := by
  rcases getString_cases hget with ⟨q, hlen, hptr⟩
  rcases getUint32_confined h hlen with ⟨hq, hpq, hzero⟩
  rcases get_confined ((len + 1) * unit) hq with ⟨hp', hqp'⟩
  rw [hptr] at hp' hqp'
  refine ⟨hp', onward_trans hpq hqp', fun hov => ?_⟩
  -- The length word is missing, and then so is the one character it stands for.
  rw [hzero hov, get_spent (hq.spent (hpq.stuck hov).2) hunit, Prod.mk.injEq] at hptr
  exact hptr.1.symm

theorem getObjOf_confined {type v : UInt32} (h : Confined mem txn p)
    (hget : p.getObjOf type = some (v, p')) :
    Confined mem txn p' ∧ Onward p p' ∧ (p.flags.overflow = true → v = 0) := by
  rcases getObjOf_cases hget with ⟨obj, hobj, hvalue⟩
  rcases getObj_cases hobj with ⟨rfl, rfl⟩ | ⟨rfl, rfl, hroom, _⟩
  · rcases exhausted_confined h with ⟨hp', hon⟩
    refine ⟨hp', hon, fun _ => ?_⟩
    -- Where no object was found there is no value.
    by_contra hne
    rcases hvalue hne with ⟨_, hnone, _⟩
    cases hnone
  · rcases advance_confined h rfl hroom with ⟨hp', hon⟩
    refine ⟨hp', hon, fun hov => ?_⟩
    rw [h.spent hov] at hroom
    exact absurd hroom (by decide)

/-- One call keeps to the message, and yields nothing once the flag is up. -/
theorem apply_confined {op : GetOp} {got : Got} (h : Confined mem txn p)
    (hget : op.apply p = some (got, p')) :
    Confined mem txn p' ∧ Onward p p' ∧ (p.flags.overflow = true → got.Empty) := by
  cases op with
  | uint32 =>
      simp only [GetOp.apply, Option.map_eq_some_iff, Prod.mk.injEq, Prod.exists] at hget
      rcases hget with ⟨w, q, hget, rfl, rfl⟩
      exact getUint32_confined h hget
  | string8 =>
      simp only [GetOp.apply, Option.map_eq_some_iff, Prod.mk.injEq, Prod.exists] at hget
      rcases hget with ⟨ptr, len, q, hget, rfl, rfl⟩
      rcases getString_confined (by decide) h hget with ⟨hq, hon, hnone⟩
      exact ⟨hq, hon, fun hov => by rw [hnone hov]; rfl⟩
  | string16 =>
      simp only [GetOp.apply, Option.map_eq_some_iff, Prod.mk.injEq, Prod.exists] at hget
      rcases hget with ⟨ptr, len, q, hget, rfl, rfl⟩
      rcases getString_confined (by decide) h hget with ⟨hq, hon, hnone⟩
      exact ⟨hq, hon, fun hov => by rw [hnone hov]; rfl⟩
  | fd | ref =>
      simp only [GetOp.apply, Option.map_eq_some_iff, Prod.mk.injEq, Prod.exists] at hget
      rcases hget with ⟨v, q, hget, rfl, rfl⟩
      exact getObjOf_confined h hget

theorem wordDerefs_confined (h : Confined mem txn p) :
    ∀ d ∈ p.wordDerefs, d.1 + d.2 ≤ txn.dataSize.toNat := by
  intro d hd
  unfold Parcel.wordDerefs at hd
  rcases get_cases p 4 with ⟨_, hget⟩ | ⟨hroom, hget⟩
  · rw [hget] at hd
    exact absurd hd List.not_mem_nil
  · rw [hget] at hd
    rw [List.mem_singleton.mp hd]
    -- The word is taken from the room, which ends where the message does.
    have hextent := h.extent
    rw [UInt32.le_iff_toNat_le] at hroom
    change 4 ≤ _ at hroom
    simp only
    omega

theorem objDerefs_confined (h : Confined mem txn p) :
    ∀ d ∈ p.objDerefs, d.1 + d.2 ≤ txn.dataSize.toNat := by
  intro d hd
  unfold Parcel.objDerefs at hd
  rcases hobj : p.getObj with _ | ⟨_ | off, q⟩
  · rw [hobj] at hd
    exact absurd hd List.not_mem_nil
  · rw [hobj] at hd
    exact absurd hd List.not_mem_nil
  · rw [hobj] at hd
    rw [List.mem_singleton.mp hd]
    exact ((getObj_found h.toInside hobj).2 off rfl).1

/-- What a call dereferences lies in the payload. -/
theorem derefs_confined (op : GetOp) (h : Confined mem txn p) :
    ∀ d ∈ op.derefs p, d.1 + d.2 ≤ txn.dataSize.toNat := by
  cases op with
  | uint32 | string8 | string16 => exact wordDerefs_confined h
  | fd | ref => exact objDerefs_confined h

/-- A sequence of calls keeps to the message. -/
theorem gets_confined {ops : List GetOp} {gots : List Got} (h : Confined mem txn p)
    (hgets : gets ops p = some (gots, p')) :
    Confined mem txn p' ∧ Onward p p' ∧
      (p.flags.overflow = true → ∀ got ∈ gots, got.Empty) := by
  induction ops generalizing p gots with
  | nil =>
      simp only [gets, Option.some.injEq, Prod.mk.injEq] at hgets
      rcases hgets with ⟨rfl, rfl⟩
      exact ⟨h, ⟨Nat.le_refl _, fun hov => ⟨rfl, hov⟩⟩,
        fun _ got hgot => absurd hgot List.not_mem_nil⟩
  | cons op ops ih =>
      rcases gets_cons_some hgets with ⟨got, q, rest, happly, hrest, rfl⟩
      rcases apply_confined h happly with ⟨hq, hpq, hgot⟩
      rcases ih hq hrest with ⟨hp', hqp', hempty⟩
      refine ⟨hp', onward_trans hpq hqp', fun hov g hg => ?_⟩
      -- The flag is up before the first call and after it.
      rcases List.mem_cons.mp hg with rfl | hg
      · exact hgot hov
      · exact hempty (hpq.stuck hov).2 g hg

/-- A call on a message that can be read has a result. -/
theorem apply_readable (op : GetOp) (hmem : Readable mem txn) (h : Confined mem txn p) :
    ∃ got q, op.apply p = some (got, q) := by
  refine apply_derefs op ?_ (fun d hd => ?_)
  · rw [h.listed, h.table]
    exact hmem.words
  · rw [h.buf]
    exact Nat.le_trans (derefs_confined op h d hd) hmem.bytes

theorem getUint32_readable (hmem : Readable mem txn) (h : Confined mem txn p) :
    ∃ w q, p.getUint32 = some (w, q) ∧ Confined mem txn q := by
  rcases apply_readable .uint32 hmem h with ⟨got, q, happly⟩
  simp only [GetOp.apply, Option.map_eq_some_iff, Prod.mk.injEq, Prod.exists] at happly
  rcases happly with ⟨w, q, hget, rfl, rfl⟩
  exact ⟨w, q, hget, (getUint32_confined h hget).1⟩

theorem getString8_readable (hmem : Readable mem txn) (h : Confined mem txn p) :
    ∃ ptr len q, p.getString8 = some ((ptr, len), q) ∧ Confined mem txn q := by
  rcases apply_readable .string8 hmem h with ⟨got, q, happly⟩
  simp only [GetOp.apply, Option.map_eq_some_iff, Prod.mk.injEq, Prod.exists] at happly
  rcases happly with ⟨ptr, len, q, hget, rfl, rfl⟩
  exact ⟨ptr, len, q, hget, (getString_confined (by decide) h hget).1⟩

theorem getRef_readable (hmem : Readable mem txn) (h : Confined mem txn p) :
    ∃ v q, p.getRef = some (v, q) ∧ Confined mem txn q := by
  rcases apply_readable .ref hmem h with ⟨got, q, happly⟩
  simp only [GetOp.apply, Option.map_eq_some_iff, Prod.mk.injEq, Prod.exists] at happly
  rcases happly with ⟨v, q, hget, rfl, rfl⟩
  exact ⟨v, q, hget, (getObjOf_confined h hget).1⟩

theorem gets_readable (ops : List GetOp) (hmem : Readable mem txn) (h : Confined mem txn p) :
    ∃ gots q, gets ops p = some (gots, q) := by
  induction ops generalizing p with
  | nil => exact ⟨[], p, rfl⟩
  | cons op ops ih =>
      rcases apply_readable op hmem h with ⟨got, q, happly⟩
      rcases ih (apply_confined h happly).1 with ⟨rest, r, hrest⟩
      exact ⟨got :: rest, r, by simp only [gets, happly, Option.bind_some, hrest, Option.map_some]⟩

/-- A message of these bytes, without objects. -/
def plainMapping (bytes : List UInt8) : Mapping := ⟨fun _ => bytes, fun _ => []⟩

/-- Its transaction. -/
def plainTxn (bytes : List UInt8) : Txn :=
  { target := 0, cookie := 0, code := 0, flags := 0, senderPid := 0, senderEuid := 0
    dataSize := UInt32.ofNat bytes.length, offsetsSize := 0, buffer := 0, offsets := 0 }

/-- Reading is confined and fails for good. Whatever calls were made on a
    message, the next one has a result: nothing is dereferenced but the payload,
    even where the readable memory ends with it. The cursor goes on by multiples
    of four up to the end, and once the overflow flag is up it stands still and
    every later call yields nothing. -/
theorem reading_confined (mem : Mapping) (txn : Txn) (hmem : Readable mem txn) (ops : List GetOp)
    (op : GetOp) :
    ∃ gots p got p', gets ops (Parcel.bioInitFromTxn mem txn) = some (gots, p) ∧
      op.apply p = some (got, p') ∧ p'.data0 = txn.buffer ∧
        p.data ≤ p'.data ∧ p'.data ≤ txn.dataSize.toNat ∧ p'.data % 4 = 0 ∧
          (∀ d ∈ op.derefs p, d.1 + d.2 ≤ txn.dataSize.toNat) ∧
            (p.flags.overflow = true → ∀ later, ∃ gots' q, gets later p = some (gots', q) ∧
              (∀ got ∈ gots', got.Empty) ∧ q.data = p.data ∧ q.flags.overflow = true) := by
  rcases gets_readable ops hmem (init_confined mem txn) with ⟨gots, p, hgets⟩
  have hp := (gets_confined (init_confined mem txn) hgets).1
  rcases apply_readable op hmem hp with ⟨got, p', happly⟩
  rcases apply_confined hp happly with ⟨hp', hon, _⟩
  have hend := Nat.le_trans (Nat.le_add_right _ _) hp'.extent
  refine ⟨gots, p, got, p', hgets, happly, hp'.start, hon.forward, hend, hp'.aligned,
    derefs_confined op hp, fun hov later => ?_⟩
  rcases gets_readable later hmem hp with ⟨gots', q, hlater⟩
  rcases gets_confined hp hlater with ⟨_, hpq, hempty⟩
  exact ⟨gots', q, hlater, hempty hov, (hpq.stuck hov).1, (hpq.stuck hov).2⟩

theorem reading_confined_word :
    ∃ gots p got p', gets [.uint32] (Parcel.bioInitFromTxn (plainMapping (le32 7))
        (plainTxn (le32 7))) = some (gots, p) ∧
      GetOp.string8.apply p = some (got, p') ∧ p'.data0 = 0 ∧
        p.data ≤ p'.data ∧ p'.data ≤ 4 ∧ p'.data % 4 = 0 ∧
          (∀ d ∈ GetOp.string8.derefs p, d.1 + d.2 ≤ 4) ∧
            (p.flags.overflow = true → ∀ later, ∃ gots' q, gets later p = some (gots', q) ∧
              (∀ got ∈ gots', got.Empty) ∧ q.data = p.data ∧ q.flags.overflow = true) :=
  reading_confined _ _ ⟨by decide, by decide⟩ [.uint32] .string8

/-- A string that was handed out lies in the message with its terminator, in
    characters of this many bytes, and the cursor has passed it. -/
def StringInside (txn : Txn) (unit : Nat) (res : (Option Nat × UInt32) × Parcel) : Prop :=
  ∀ ptr, res.1.1 = some ptr →
    ptr + unit * (res.1.2.toNat + 1) ≤ txn.dataSize.toNat ∧
      ptr + unit * (res.1.2.toNat + 1) ≤ res.2.data

/-- The word a string reader would take for the length, if there is room for
    one. -/
def LengthWord (p : Parcel) (len : UInt32) : Prop :=
  4 ≤ p.room ∧ load32 (p.buf.drop p.data) = some len

/-- The size of a string, as long as nothing wraps around. -/
theorem string_size {len unit : UInt32} (h : unit.toNat * (len.toNat + 1) + 3 < 2 ^ 32)
    (hpos : 0 < unit.toNat) : ((len + 1) * unit).toNat = unit.toNat * (len.toNat + 1) := by
  have hle : len.toNat + 1 ≤ unit.toNat * (len.toNat + 1) := Nat.le_mul_of_pos_left _ hpos
  have hsucc : (len + 1).toNat = len.toNat + 1 := by
    rw [UInt32.toNat_add]
    change (len.toNat + 1) % 2 ^ 32 = _
    omega
  rw [UInt32.toNat_mul, hsucc, Nat.mul_comm]
  omega

/-- With room for it the length word is what stands at the cursor. -/
theorem getUint32_word {len : UInt32} (h : LengthWord p len) :
    p.getUint32 = some (len, p.advance 4) := by
  rcases h with ⟨hroom, hload⟩
  have hbuf : (p.advance (Parcel.alignSize 4)).buf = p.buf := rfl
  rcases get_cases p 4 with ⟨hshort, _⟩ | ⟨_, hget⟩
  · exact absurd hroom (UInt32.not_le.mpr hshort)
  · rw [Parcel.getUint32, hget]
    simp only [hbuf, hload, Option.map_some]
    rfl

/-- A string whose size is granted is handed out behind its length word. -/
theorem getString_granted {unit len : UInt32} (h : LengthWord p len)
    (hroom : Parcel.alignSize ((len + 1) * unit) ≤ p.room - 4) :
    ∃ q, p.getString unit = some ((some (p.data + 4), len), q) := by
  rcases get_cases (p.advance 4) ((len + 1) * unit) with ⟨hshort, _⟩ | ⟨_, hget⟩
  · rw [advance_room] at hshort
    exact absurd hroom (UInt32.not_le.mpr hshort)
  · rw [Parcel.getString, getUint32_word h, Option.map_some]
    simp only [hget]
    exact ⟨_, rfl⟩

/-- A string lies in its message unless its size wraps around to one that is
    granted. -/
theorem string_inside_unit {unit : UInt32} (hunit : ¬ Parcel.alignSize ((0 + 1) * unit) ≤ 0)
    (hpos : 0 < unit.toNat) (h : Inside mem txn p) :
    (∀ res, p.getString unit = some res → StringInside txn unit.toNat res) ↔
      ∀ len, LengthWord p len → unit.toNat * (len.toNat + 1) + 3 < 2 ^ 32 ∨
        p.room - 4 < Parcel.alignSize ((len + 1) * unit) := by
  constructor
  · intro hinside len hlen
    by_contra hbad
    rw [not_or, UInt32.not_lt] at hbad
    -- The string is handed out, too long for any message.
    rcases getString_granted hlen hbad.2 with ⟨q, hget⟩
    have hout := hinside _ hget _ rfl
    have hsize := txn.dataSize.toNat_lt
    simp only at hout
    omega
  · rintro hwrap ⟨⟨ptr, len⟩, p'⟩ hget ptr' hptr
    simp only at hptr
    subst hptr
    rcases getString_some hunit hget with ⟨hload, rfl, hroom, hfits, rfl⟩
    -- The size is what it should be, so it was taken from the room.
    rcases hwrap len ⟨hroom, hload⟩ with hsmall | hshort
    · have hsize := string_size hsmall hpos
      have halign := alignSize_toNat ((len + 1) * unit) (by omega)
      have hspec := alignNat_spec ((len + 1) * unit).toNat
      have hextent := h.extent
      rw [UInt32.le_iff_toNat_le, UInt32.toNat_sub_of_le _ _ hroom] at hfits
      rw [UInt32.le_iff_toNat_le] at hroom
      change 4 ≤ _ at hroom
      change _ ≤ _ - 4 at hfits
      have hdata : ((p.advance 4).advance (Parcel.alignSize ((len + 1) * unit))).data
          = p.data + 4 + (Parcel.alignSize ((len + 1) * unit)).toNat := rfl
      simp only [hdata]
      omega
    · exact absurd hfits (UInt32.not_le.mpr hshort)

/-- Whatever was read before, a string that is handed out lies in the message
    exactly if its length word does not make the size wrap around. A size in
    bytes wraps to zero, which is always granted; a size in half words wraps to
    any size, which has to be granted as well. -/
theorem string_inside_iff {ops : List GetOp} {gots : List Got}
    (hgets : gets ops (Parcel.bioInitFromTxn mem txn) = some (gots, p)) :
    ((∀ res, p.getString8 = some res → StringInside txn 1 res) ↔
        ∀ len, LengthWord p len → len.toNat < 2 ^ 32 - 4) ∧
      ((∀ res, p.getString16 = some res → StringInside txn 2 res) ↔
        ∀ len, LengthWord p len → len.toNat < 2 ^ 31 - 2 ∨
          p.room - 4 < Parcel.alignSize ((len + 1) * 2)) := by
  have hin := (gets_confined (init_confined mem txn) hgets).1.toInside
  constructor
  · refine (string_inside_unit (by decide) (by decide) hin).trans (forall₂_congr fun len _ => ?_)
    have hone : (1 : UInt32).toNat = 1 := rfl
    rw [hone]
    constructor
    · rintro (hsmall | hshort)
      · omega
      · -- From there on the size is nothing, and there is always room for that.
        by_contra hlarge
        have hlen := len.toNat_lt
        have hsize : (Parcel.alignSize ((len + 1) * 1)).toNat = 0 := by
          rw [UInt32.mul_one, Parcel.alignSize, and_not_three_toNat, UInt32.toNat_add,
            UInt32.toNat_add]
          change ((len.toNat + 1) % 2 ^ 32 + 3) % 2 ^ 32 / 4 * 4 = 0
          omega
        rw [UInt32.lt_iff_toNat_lt, hsize] at hshort
        exact Nat.not_lt_zero _ hshort
    · intro hsmall
      exact Or.inl (by omega)
  · refine (string_inside_unit (by decide) (by decide) hin).trans (forall₂_congr fun len _ => ?_)
    have htwo : (2 : UInt32).toNat = 2 := rfl
    rw [htwo]
    refine or_congr ?_ Iff.rfl
    omega

/-- A message of a word and a string of one letter. -/
def letterMessage : List UInt8 := [7, 0, 0, 0, 1, 0, 0, 0, 97, 0, 0, 0]

/-- Behind the word the rest is a string in bytes, and it is one in half words. -/
theorem string_inside_letter :
    ∃ gots p res res', gets [.uint32] (Parcel.bioInitFromTxn (plainMapping letterMessage)
        (plainTxn letterMessage)) = some (gots, p) ∧
      p.getString8 = some res ∧ res.1 = (some 8, 1) ∧ StringInside (plainTxn letterMessage) 1 res ∧
      p.getString16 = some res' ∧ res'.1 = (some 8, 1) ∧
        StringInside (plainTxn letterMessage) 2 res' := by
  have hgets : gets [.uint32] (Parcel.bioInitFromTxn (plainMapping letterMessage)
      (plainTxn letterMessage)) = some ([.word 7], (Parcel.bioInitFromTxn
        (plainMapping letterMessage) (plainTxn letterMessage)).advance 4) := rfl
  have hword : ∀ len, LengthWord ((Parcel.bioInitFromTxn (plainMapping letterMessage)
      (plainTxn letterMessage)).advance 4) len → len = 1 :=
    fun len hlen => Option.some.inj (hlen.2.symm.trans rfl)
  rcases string_inside_iff hgets with ⟨hbytes, hhalves⟩
  refine ⟨_, _, ((some 8, 1), _), ((some 8, 1), _), hgets, rfl, rfl,
    hbytes.mpr (fun len hlen => ?_) _ rfl, rfl, rfl,
    hhalves.mpr (fun len hlen => Or.inl ?_) _ rfl⟩
  · rw [hword len hlen]
    decide
  · rw [hword len hlen]
    decide

/-- Four bytes are enough: the string of the greatest length lies behind them. -/
theorem string_outside : ¬ ∀ (mem : Mapping) (txn : Txn) (ops : List GetOp) (gots : List Got)
    (p : Parcel), gets ops (Parcel.bioInitFromTxn mem txn) = some (gots, p) →
      (∀ res, p.getString8 = some res → StringInside txn 1 res) ∧
        ∀ res, p.getString16 = some res → StringInside txn 2 res := by
  intro h
  have hword := (h (plainMapping (le32 0xffffffff)) (plainTxn (le32 0xffffffff)) [] [] _ rfl).1
    ((some 4, 0xffffffff), _) rfl 4 rfl
  exact absurd hword.1 (by decide)

end Binder

end ZeusOS
