import ZeusOS.Binder.RoundTrip
import ZeusOS.Binder.Inspect

/-!
# What Arrives of a Request

Decode undoes encode where the values survive the wire. A string that is too
long does not: it is written as if there were none, a length word alone, and
the reader hands out a pointer behind that word. So whatever is written can be
read, every call moves the reader on by what was written, and the values are
the right ones exactly where they survive.

The pointer of such a string leads to whatever comes behind it. That this is
not by accident the string itself is a matter of size: the string and its
terminator, or else the length word, would have to fill the address space.

## Main definitions

* `PutOp.Given`: The calls whose values exist.
* `Got.Present`: A call that has not yielded a null pointer.

## Theorems

* `apply_buf`: Reading leaves the memory alone.
* `improper_cases`: What does not survive the wire.
* `overlong_reads`: A string that is too long.
* `op_reads`: What the matching call yields of any value.
* `gets_arrived`: What the matching calls yield of any request.
* `layout_head`: What a message begins with.
-/

namespace ZeusOS

namespace Binder

open Foundation.Words

/-- A value that is there. A string may still be too long. -/
def PutOp.Given : PutOp → Prop
  | .string8 str => str ≠ none
  | op => op.Proper

/-- No null pointer. -/
def Got.Present : Got → Prop
  | .word _ => True
  | .string8 str _ => str ≠ none
  | .string16 str _ => str ≠ none

theorem get_buf (p : Parcel) (size : UInt32) : (p.get size).2.buf = p.buf := by
  rcases get_cases p size with ⟨_, hget⟩ | ⟨_, hget⟩
  · rw [hget]
    rfl
  · rw [hget]
    rfl

theorem getUint32_buf {p p' : Parcel} {w : UInt32} (h : p.getUint32 = some (w, p')) :
    p'.buf = p.buf := by
  rcases getUint32_cases h with ⟨_, _, rfl⟩ | ⟨_, _, rfl⟩
  · rfl
  · rfl

theorem getString_buf {p p' : Parcel} {unit len : UInt32} {ptr : Option Nat}
    (h : p.getString unit = some ((ptr, len), p')) : p'.buf = p.buf := by
  rcases getString_cases h with ⟨q, hlen, hget⟩
  have hbuf := get_buf q ((len + 1) * unit)
  rw [hget] at hbuf
  exact hbuf.trans (getUint32_buf hlen)

theorem getObjOf_buf {p p' : Parcel} {type w : UInt32} (h : Parcel.getObjOf type p = some (w, p')) :
    p'.buf = p.buf := by
  rcases getObjOf_cases h with ⟨obj, hobj, _⟩
  rcases getObj_cases hobj with ⟨_, rfl⟩ | ⟨_, rfl, _, _⟩
  · rfl
  · rfl

/-- Reading leaves the memory alone. -/
theorem apply_buf {op : GetOp} {p p' : Parcel} {got : Got} (h : op.apply p = some (got, p')) :
    p'.buf = p.buf := by
  cases op with
  | uint32 =>
      simp only [GetOp.apply, Option.map_eq_some_iff, Prod.mk.injEq, Prod.exists] at h
      rcases h with ⟨_, _, hget, _, rfl⟩
      exact getUint32_buf hget
  | string8 | string16 =>
      simp only [GetOp.apply, Option.map_eq_some_iff, Prod.mk.injEq, Prod.exists] at h
      rcases h with ⟨_, _, _, hget, _, rfl⟩
      exact getString_buf hget
  | fd | ref =>
      simp only [GetOp.apply, Option.map_eq_some_iff, Prod.mk.injEq, Prod.exists] at h
      rcases h with ⟨_, _, hget, _, rfl⟩
      exact getObjOf_buf hget

/-- Of a string that is too long only the length word of a null pointer is
    written. -/
theorem stringSegments_long {unit : UInt32} {n limit : Nat} {bytes : List UInt8} (hn : n < 2 ^ 32)
    (hlimit : (maxBioSize / unit).toNat = limit) (hge : ¬ n < limit) :
    PutOp.stringSegments unit (some (UInt32.ofNat n, bytes)) = [le32 0xffffffff] := by
  have hword : UInt32.ofNat n ≥ maxBioSize / unit := by
    rw [ge_iff_le, UInt32.le_iff_toNat_le, hlimit, UInt32.toNat_ofNat_of_lt' hn]
    omega
  simp only [PutOp.stringSegments, if_pos hword]

/-- What does not survive the wire is a zero handle, or a string of which only
    the length word of a null pointer is written. -/
theorem improper_cases (op : PutOp) (h : ¬ op.Proper) :
    op = .ref 0 ∨ (op.segments = [le32 0xffffffff] ∧ op.isObject = false ∧
      (op.getter = .string8 ∨ op.getter = .string16)) := by
  cases op with
  | uint32 _ | fd _ | obj _ => exact absurd trivial h
  | ref iHandle =>
      simp only [PutOp.Proper, ne_eq, Decidable.not_not] at h
      exact Or.inl (by rw [h])
  | string8 str =>
      refine Or.inr ⟨?_, rfl, Or.inl rfl⟩
      cases str with
      | none => rfl
      | some s =>
          exact stringSegments_long s.fits maxBioSize_div_one fun hs => h ⟨s, rfl, hs⟩
  | string16 str =>
      refine Or.inr ⟨?_, rfl, Or.inr rfl⟩
      cases str with
      | none => rfl
      | some s =>
          exact stringSegments_long s.fits maxBioSize_div_two fun hs => h ⟨s, rfl, hs⟩
  | string16X str =>
      refine Or.inr ⟨?_, rfl, Or.inr rfl⟩
      cases str with
      | none => rfl
      | some s =>
          exact stringSegments_long s.fits maxBioSize_div_two fun hs => h ⟨s, rfl, hs⟩

variable {msg : List UInt8} {offs : List UInt32} {k : Nat} {p : Parcel}
  {rewrite : Nat → UInt32 → UInt32}

/-- Of the length word of a null pointer a string reader takes nothing but the
    word, and hands out a pointer behind it. -/
theorem nullWord_reads (hR : Reader msg offs k p) (unit : UInt32)
    (hword : le32 0xffffffff <+: msg.drop k) (hle : k + 4 ≤ msg.length) :
    ∃ p', p.getString unit = some ((some (k + 4), 0xffffffff), p') ∧
      Reader msg offs (k + 4) p' := by
  -- One more than the length word is zero, so no characters are taken.
  have hnone : ((0xffffffff + 1) * unit : UInt32).toNat = 0 := by
    change ((0 : UInt32) * unit).toNat = 0
    rw [UInt32.zero_mul]
    rfl
  have halign : alignNat 0 = 0 := rfl
  have hget := getString_reader hR unit 0xffffffff hword (by rw [hnone]; decide)
    (by rw [hnone, halign]; exact hle)
  rwa [hnone, halign] at hget

/-- Of a string that is too long there is a length word, and a pointer behind
    it. -/
theorem overlong_reads (hR : Reader msg offs k p) (s : CString) (hlong : ¬ s.chars.length < 2 ^ 30)
    (hop : Holds rewrite msg offs k (.string8 (some s)))
    (hle : k + (PutOp.string8 (some s)).encodedSize ≤ msg.length) :
    ∃ p', p.getString8 = some ((some (k + 4), 0xffffffff), p') ∧
      Reader msg offs (k + (PutOp.string8 (some s)).encodedSize) p' := by
  have himproper : ¬ (PutOp.string8 (some s)).Proper := by
    rintro ⟨s', hs', hlt⟩
    rw [Option.some.injEq] at hs'
    rw [← hs'] at hlt
    exact hlong hlt
  rcases improper_cases _ himproper with href | ⟨hsegs, _, _⟩
  · cases href
  · have hat : SegsAt msg k (PutOp.string8 (some s)).segments := hop
    rw [hsegs] at hat
    rw [encodedSize_word _ _ hsegs] at hle ⊢
    exact nullWord_reads hR 1 hat.1 hle

/-- The matching call yields something of every value that is there, and the
    value itself exactly if it survives the wire. -/
theorem op_reads (hR : Reader msg offs k p) (hbuf : p.buf.length < 2 ^ 32) (op : PutOp)
    (hgiven : op.Given) (hop : Holds rewrite msg offs k op)
    (hle : k + op.encodedSize ≤ msg.length) :
    ∃ got p', op.getter.apply p = some (got, p') ∧ Reader msg offs (k + op.encodedSize) p' ∧
      got.Present ∧ (got = op.expected (rewrite k) ↔ op.Proper) := by
  by_cases hproper : op.Proper
  · rcases holds_reads rewrite hR op hproper hop hle with ⟨p', hget, hR'⟩
    refine ⟨_, p', hget, hR', ?_, iff_of_true rfl hproper⟩
    cases op with
    | string8 str | string16 str | string16X str =>
        rcases hproper with ⟨s, rfl, _⟩
        exact Option.some_ne_none _
    | uint32 | fd | obj | ref => trivial
  · cases op with
    | string8 str =>
        rcases Option.ne_none_iff_exists'.mp hgiven with ⟨s, rfl⟩
        have hlong : ¬ s.chars.length < 2 ^ 30 := fun hs => hproper ⟨s, rfl, hs⟩
        rcases overlong_reads hR s hlong hop hle with ⟨p', hget, hR'⟩
        refine ⟨.string8 (some ((p'.buf.drop (k + 4)).take (2 ^ 32))) 0xffffffff, p', ?_, hR', ?_,
          iff_of_false ?_ hproper⟩
        · simp only [PutOp.getter, GetOp.apply, hget, Option.map_some]
          rfl
        · exact Option.some_ne_none _
        · intro hgot
          simp only [PutOp.expected, Option.map_some, Option.getD_some, Got.string8.injEq,
            Option.some.injEq] at hgot
          rcases hgot with ⟨hchars, hlen⟩
          -- The word is the length only of a string that takes all there is.
          have hall := congrArg UInt32.toNat hlen
          rw [UInt32.toNat_ofNat_of_lt' s.fits] at hall
          have hlength := congrArg List.length hchars
          have hsame : p'.buf = p.buf := getString_buf hget
          rw [hsame, List.length_take, List.length_drop, List.length_append,
            List.length_singleton] at hlength
          have hmax : (0xffffffff : UInt32).toNat = 2 ^ 32 - 1 := rfl
          omega
    | uint32 | fd | obj => exact absurd trivial hproper
    | string16 | string16X | ref => exact absurd hgiven hproper

/-- The matching calls yield something of every request, and the values
    themselves exactly if all of them survive the wire. -/
theorem gets_arrived (hR : Reader msg offs 0 p) (hbuf : p.buf.length < 2 ^ 32) (ops : List PutOp)
    (hgiven : ∀ op ∈ ops, op.Given) (h : Layout rewrite msg offs ops k) :
    k = totalSize ops ∧ ∃ gots p', gets (ops.map PutOp.getter) p = some (gots, p') ∧
      Reader msg offs k p' ∧ p'.buf = p.buf ∧ (∀ got ∈ gots, got.Present) ∧
        (gots = expectedFrom rewrite 0 ops ↔ ∀ op ∈ ops, op.Proper) := by
  induction h with
  | nil =>
      exact ⟨rfl, [], p, rfl, hR, rfl, fun _ h => absurd h List.not_mem_nil,
        iff_of_true rfl fun _ h => absurd h List.not_mem_nil⟩
  | snoc ops op k _ hop hle ih =>
      rcases ih (fun o ho => hgiven o (List.mem_append_left _ ho)) with
        ⟨hk, gots, q, hq, hRq, hbufq, hpresent, hiff⟩
      have hlast := hgiven op (List.mem_append_right _ (List.mem_singleton_self op))
      rcases op_reads hRq (by rw [hbufq]; exact hbuf) op hlast hop hle with
        ⟨got, p', hget, hR', hgot, hgotiff⟩
      refine ⟨by rw [totalSize_snoc, hk], gots ++ [got], p', ?_, hR', ?_, ?_, ?_⟩
      · simp only [List.map_append, List.map_singleton, gets_snoc, hq, Option.bind_some, hget,
          Option.map_some]
      · rw [apply_buf hget, hbufq]
      · intro g hg
        rcases List.mem_append.mp hg with hg | hg
        · exact hpresent g hg
        · rw [List.mem_singleton.mp hg]
          exact hgot
      · rw [expectedFrom_snoc, Nat.zero_add, ← hk]
        constructor
        · intro heq o ho
          rcases List.append_inj' heq rfl with ⟨hfirst, hsecond⟩
          rcases List.mem_append.mp ho with ho | ho
          · exact hiff.mp hfirst o ho
          · rw [List.mem_singleton.mp ho]
            exact hgotiff.mp (List.singleton_inj.mp hsecond)
        · intro hall
          rw [hiff.mpr fun o ho => hall o (List.mem_append_left _ ho),
            hgotiff.mpr (hall op (List.mem_append_right _ (List.mem_singleton_self op)))]

/-- A message begins with its first value. -/
theorem layout_head {op : PutOp} {ops : List PutOp} (h : Layout rewrite msg offs (op :: ops) k) :
    Holds rewrite msg offs 0 op ∧ op.encodedSize ≤ msg.length := by
  generalize hall : op :: ops = all at h
  induction h generalizing ops with
  | nil => cases hall
  | snoc before last k hbefore hlast hle ih =>
      cases before with
      | nil =>
          rw [List.nil_append, List.cons.injEq] at hall
          rw [layout_nil hbefore] at hlast hle
          rw [hall.1]
          exact ⟨hlast, by omega⟩
      | cons first rest =>
          rw [List.cons_append, List.cons.injEq] at hall
          exact ih (by rw [hall.1])

end Binder

end ZeusOS
