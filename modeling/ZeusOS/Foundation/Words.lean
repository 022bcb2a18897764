import Mathlib.Tactic.Ring
import Mathlib.Data.Nat.Bitwise

/-!
# Machine Words and Bytes

The arithmetic a C program on a 32-bit little-endian target takes for granted:
how an `unsigned int` is read as an `int` and back, how a word is laid out in
memory, and what a store does to a block of bytes.

Memory is a list of bytes, and a pointer into it is the distance from its
start. A load that runs off the end has no value, so `load32` and `load16`
return an option; everything that dereferences a pointer inherits the `none`
and a proof that a program stays in bounds is a proof that it never appears.

`splice` is a store. It is only ever used inside the block, where it changes
as many bytes as it is given and no others; `take_splice` is the form the
proofs use, since a writer that fills a buffer from the left only ever cares
about the part it has filled.

## Main definitions

* `toInt`: An unsigned word read as a signed one.
* `toUnsigned`: A signed integer converted to an unsigned word.
* `le32`, `le16`: The little-endian bytes of a word.
* `load32`, `load16`, `loadWords`: Reading words off the front of some bytes.
* `splice`: Overwriting a stretch of a list.

## Theorems

* `toUnsigned_toInt`: The conversions undo each other on words.
* `and_not_three_toNat`: Clearing the two low bits rounds down to a multiple
  of four.
* `load32_le32`: A stored word is loaded back.
* `load16_le16`: The same for half words.
* `load32_iff_le32`: What a load sees, as bytes.
* `units16_flatMap`: A stored string of half words is read back.
* `loadWords_flatMap`: The same for a row of words.
* `take_splice`: The filled part of a buffer after one more store.
* `getElem?_splice_of_not_mem`, `prefix_splice_of_le`: A store leaves the rest
  alone.
-/

namespace Foundation

namespace Words

/-- An unsigned word read as a signed one, which is what the conversion to
    `int` does on a two's complement target. -/
def toInt (w : UInt32) : Int :=
  if w.toNat < 2 ^ 31 then (w.toNat : Int) else (w.toNat : Int) - 2 ^ 32

/-- A signed integer converted to an unsigned word, reduced modulo `2 ^ 32`. -/
def toUnsigned (i : Int) : UInt32 :=
  UInt32.ofNat (i % 2 ^ 32).toNat

theorem toInt_of_lt (w : UInt32) (h : w.toNat < 2 ^ 31) : toInt w = (w.toNat : Int) := by
  rw [toInt, if_pos h]

theorem toUnsigned_toNat (i : Int) : (toUnsigned i).toNat = (i % 2 ^ 32).toNat := by
  rw [toUnsigned, UInt32.toNat_ofNat']
  omega

theorem toUnsigned_toNat_of_nonneg (i : Int) (h0 : 0 ≤ i) (h1 : i < 2 ^ 32) :
    ((toUnsigned i).toNat : Int) = i := by
  rw [toUnsigned_toNat]
  omega

theorem toUnsigned_toInt (w : UInt32) : toUnsigned (toInt w) = w := by
  apply UInt32.toNat_inj.mp
  have hw := w.toNat_lt
  rw [toUnsigned_toNat]
  -- A negative value is congruent to the word it came from.
  unfold toInt
  split <;> omega

/-- Subtracting in `unsigned` and storing in an `int` is plain subtraction as
    long as the result is not negative. -/
theorem toInt_sub (i : Int) (w : UInt32) (hi : i < 2 ^ 31) (hw : (w.toNat : Int) ≤ i) :
    toInt (toUnsigned i - w) = i - w.toNat := by
  have hlt := w.toNat_lt
  have hu := toUnsigned_toNat_of_nonneg i (by omega) (by omega)
  -- The subtraction does not borrow, since the word is no larger than what it is taken from.
  have hsub : (toUnsigned i - w).toNat = i.toNat - w.toNat := by
    rw [UInt32.toNat_sub]
    omega
  rw [toInt_of_lt _ (by omega), hsub]
  omega

/-- Clearing the two low bits rounds down to a multiple of four. -/
theorem and_not_three_toNat (w : UInt32) : (w &&& ~~~3).toNat = w.toNat / 4 * 4 := by
  have hmask : (~~~(3 : UInt32)).toNat = (2 ^ 30 - 1) <<< 2 := by decide
  have hw := w.toNat_lt
  rw [UInt32.toNat_and, hmask]
  have hshift : w.toNat / 4 * 4 = (w.toNat >>> 2) <<< 2 := by
    rw [Nat.shiftRight_eq_div_pow, Nat.shiftLeft_eq]
  rw [hshift]
  -- Both sides are compared bit by bit: the mask keeps bits 2 to 31.
  apply Nat.eq_of_testBit_eq
  intro i
  simp only [Nat.testBit_and, Nat.testBit_shiftLeft, Nat.testBit_shiftRight,
    Nat.testBit_two_pow_sub_one]
  by_cases h2 : 2 ≤ i
  · rw [show 2 + (i - 2) = i by omega]
    by_cases h32 : i - 2 < 30
    · simp only [h2, h32, decide_true, Bool.and_true, Bool.true_and]
    · -- Above bit 31 the word has no bits to keep.
      have hhigh : w.toNat.testBit i = false := by
        apply Nat.testBit_eq_false_of_lt
        calc w.toNat < 2 ^ 32 := hw
          _ ≤ 2 ^ i := Nat.pow_le_pow_right (by decide) (by omega)
      simp only [hhigh, Bool.false_and, Bool.and_false]
  · simp only [h2, decide_false, Bool.false_and, Bool.and_false]

/-- The four bytes of a word, least significant first. -/
def le32 (w : UInt32) : List UInt8 :=
  [UInt8.ofNat w.toNat, UInt8.ofNat (w.toNat / 2 ^ 8), UInt8.ofNat (w.toNat / 2 ^ 16),
    UInt8.ofNat (w.toNat / 2 ^ 24)]

/-- The two bytes of a half word, least significant first. -/
def le16 (w : UInt16) : List UInt8 :=
  [UInt8.ofNat w.toNat, UInt8.ofNat (w.toNat / 2 ^ 8)]

/-- Read a word off the front of some bytes. -/
def load32 : List UInt8 → Option UInt32
  | a :: b :: c :: d :: _ =>
    some (UInt32.ofNat (a.toNat + 2 ^ 8 * b.toNat + 2 ^ 16 * c.toNat + 2 ^ 24 * d.toNat))
  | _ => none

/-- Read a half word off the front of some bytes. -/
def load16 : List UInt8 → Option UInt16
  | a :: b :: _ => some (UInt16.ofNat (a.toNat + 2 ^ 8 * b.toNat))
  | _ => none

@[simp] theorem le32_length (w : UInt32) : (le32 w).length = 4 := rfl

@[simp] theorem le16_length (w : UInt16) : (le16 w).length = 2 := rfl

@[simp] theorem load32_le32 (w : UInt32) (rest : List UInt8) :
    load32 (le32 w ++ rest) = some w := by
  have hw := w.toNat_lt
  simp only [le32, load32, List.cons_append, List.nil_append]
  -- The four bytes are the base 256 digits of the word.
  congr 1
  apply UInt32.toNat_inj.mp
  simp only [UInt32.toNat_ofNat', UInt8.toNat_ofNat']
  omega

@[simp] theorem load16_le16 (w : UInt16) (rest : List UInt8) :
    load16 (le16 w ++ rest) = some w := by
  have hw := w.toNat_lt
  simp only [le16, load16, List.cons_append, List.nil_append]
  congr 1
  apply UInt16.toNat_inj.mp
  simp only [UInt16.toNat_ofNat', UInt8.toNat_ofNat']
  omega

/-- The bytes of a word assembled from four bytes are those four bytes. -/
theorem le32_of_bytes (a b c d : UInt8) :
    le32 (UInt32.ofNat (a.toNat + 2 ^ 8 * b.toNat + 2 ^ 16 * c.toNat + 2 ^ 24 * d.toNat))
      = [a, b, c, d] := by
  have hbound : ∀ x : UInt8, x.toNat < 256 := fun x => x.toNat_lt
  have ha := hbound a
  have hb := hbound b
  have hc := hbound c
  have hd := hbound d
  -- A byte is known by its value, so each digit is compared as a number.
  have hbyte : ∀ (n : Nat) (x : UInt8), n % 256 = x.toNat → UInt8.ofNat n = x := by
    intro n x h
    apply UInt8.toNat_inj.mp
    rw [UInt8.toNat_ofNat', h]
  simp only [le32, UInt32.toNat_ofNat', List.cons.injEq, and_true]
  refine ⟨hbyte _ _ ?_, hbyte _ _ ?_, hbyte _ _ ?_, hbyte _ _ ?_⟩ <;> omega

/-- A load sees exactly the four bytes in front of it. -/
theorem load32_eq_some_iff (bs : List UInt8) (w : UInt32) :
    load32 bs = some w ↔ 4 ≤ bs.length ∧ bs.take 4 = le32 w := by
  constructor
  · -- Shorter lists have no value, longer ones the bytes in front.
    intro h
    rcases bs with _ | ⟨a, _ | ⟨b, _ | ⟨c, _ | ⟨d, rest⟩⟩⟩⟩ <;>
      simp only [load32, reduceCtorEq, Option.some.injEq] at h
    refine ⟨by simp only [List.length_cons]; omega, ?_⟩
    rw [← h, le32_of_bytes]
    rfl
  · rintro ⟨_, htake⟩
    rw [← List.take_append_drop 4 bs, htake, load32_le32]

theorem load32_iff_le32 (bs : List UInt8) (w : UInt32) : load32 bs = some w ↔ le32 w <+: bs := by
  rw [load32_eq_some_iff]
  constructor
  · rintro ⟨_, htake⟩
    rw [← htake]
    exact List.take_prefix 4 bs
  · intro h
    -- Where the bytes of the word stand, there are at least four of them.
    have hlen := h.length_le
    rw [le32_length] at hlen
    exact ⟨hlen, by rw [← le32_length w]; exact (List.prefix_iff_eq_take.mp h).symm⟩

/-- Where there are four bytes there is a word. -/
theorem load32_isSome {bs : List UInt8} (h : 4 ≤ bs.length) : ∃ w, load32 bs = some w := by
  rcases bs with _ | ⟨a, _ | ⟨b, _ | ⟨c, _ | ⟨d, rest⟩⟩⟩⟩
  -- Shorter lists are excluded by their length.
  all_goals simp only [List.length_cons, List.length_nil] at h
  any_goals omega
  exact ⟨_, rfl⟩

/-- Read half words off the front of some bytes, as many as are asked for. -/
def units16 : Nat → List UInt8 → List UInt16
  | n + 1, a :: b :: rest => UInt16.ofNat (a.toNat + 2 ^ 8 * b.toNat) :: units16 n rest
  | _, _ => []

/-- Stored half words are read back. -/
theorem units16_flatMap (units : List UInt16) (rest : List UInt8) :
    units16 units.length (units.flatMap le16 ++ rest) = units := by
  induction units with
  | nil => rfl
  | cons u units ih =>
      -- The first half word is read back by the round trip of one, the rest by the induction.
      have hu := load16_le16 u (units.flatMap le16 ++ rest)
      simp only [le16, List.cons_append, List.nil_append, load16, Option.some.injEq] at hu
      simp only [List.length_cons, List.flatMap_cons, le16, List.cons_append, List.nil_append,
        units16, hu, ih]

/-- Reading several words in a row. -/
def loadWords : Nat → List UInt8 → Option (List UInt32)
  | 0, _ => some []
  | n + 1, bs => (load32 bs).bind fun w => (loadWords n (bs.drop 4)).map fun ws => w :: ws

theorem loadWords_flatMap (ws : List UInt32) (rest : List UInt8) :
    loadWords ws.length (ws.flatMap le32 ++ rest) = some ws := by
  induction ws with
  | nil => rfl
  | cons w ws ih =>
      -- Reading one word leaves the bytes of the others.
      have hdrop : (le32 w ++ (ws.flatMap le32 ++ rest)).drop 4 = ws.flatMap le32 ++ rest := rfl
      simp only [List.flatMap_cons, List.length_cons, loadWords, List.append_assoc, load32_le32,
        Option.bind_some, hdrop, ih, Option.map_some]

/-- A load only depends on the four bytes in front of it. -/
theorem load32_congr (as bs : List UInt8) (h : as.take 4 = bs.take 4) :
    load32 as = load32 bs := by
  -- Equal front parts are equally short when one of them is.
  have hlen : 4 ≤ as.length ↔ 4 ≤ bs.length := by
    have := congrArg List.length h
    simp only [List.length_take] at this
    omega
  rcases hw : load32 bs with _ | w
  · -- If one load runs off the end, so does the other.
    rcases hv : load32 as with _ | v
    · rfl
    · rcases (load32_eq_some_iff as v).mp hv with ⟨hl, ht⟩
      have := (load32_eq_some_iff bs v).mpr ⟨hlen.mp hl, by rw [← h]; exact ht⟩
      rw [hw] at this
      exact absurd this (by simp only [reduceCtorEq, not_false_eq_true])
  · rcases (load32_eq_some_iff bs w).mp hw with ⟨hl, ht⟩
    exact (load32_eq_some_iff as w).mpr ⟨hlen.mpr hl, by rw [h]; exact ht⟩

/-- Lists that begin alike do so behind any place. -/
theorem drop_prefix_drop {α : Type} {as bs : List α} (h : as <+: bs) (n : Nat) :
    as.drop n <+: bs.drop n := by
  rcases h with ⟨rest, rfl⟩
  rw [List.drop_append]
  exact List.prefix_append _ _

/-- What stands at a place in the front part of a list stands there in the
    whole list. -/
theorem prefix_of_take {α : Type} (seg msg : List α) (n k : Nat) (h : seg <+: (msg.take n).drop k) :
    seg <+: msg.drop k := by
  refine h.trans ?_
  rw [List.drop_take]
  exact List.take_prefix _ _

section Splice

variable {α : Type}

/-- Overwrite the stretch of a list that starts at `off`. -/
def splice (off : Nat) (new old : List α) : List α :=
  old.take off ++ new ++ old.drop (off + new.length)

theorem splice_length (off : Nat) (new old : List α) (h : off + new.length ≤ old.length) :
    (splice off new old).length = old.length := by
  simp only [splice, List.length_append, List.length_take, List.length_drop]
  omega

/-- Reading back the filled part of a buffer, the store and what follows it
    up to `n` included. -/
theorem take_splice (off n : Nat) (new old : List α) (hn : new.length ≤ n)
    (h : off + new.length ≤ old.length) :
    (splice off new old).take (off + n)
      = old.take off ++ (new ++ (old.drop (off + new.length)).take (n - new.length)) := by
  -- The store starts where the filled part ends.
  have hoff : (old.take off).length = off := by
    rw [List.length_take]
    omega
  rw [splice, List.append_assoc, List.take_append, hoff, List.take_of_length_le (by omega),
    Nat.add_sub_cancel_left, List.take_append, List.take_of_length_le hn]

/-- A store leaves what lies outside it alone. -/
theorem getElem?_splice_of_not_mem (off i : Nat) (new old : List α)
    (hi : i < off ∨ off + new.length ≤ i) (h : off + new.length ≤ old.length) :
    (splice off new old)[i]? = old[i]? := by
  have hoff : (old.take off).length = off := by
    rw [List.length_take]
    omega
  rw [splice, List.append_assoc]
  rcases hi with hlt | hge
  -- Before the store the old front stands, behind it the old rest.
  · rw [List.getElem?_append_left (by omega), List.getElem?_take, if_pos hlt]
  · rw [List.getElem?_append_right (by omega), List.getElem?_append_right (by omega), hoff,
      List.getElem?_drop]
    congr 1
    omega

/-- What was stored stands where it was stored. -/
theorem prefix_splice_self (off : Nat) (new old : List α) (h : off + new.length ≤ old.length) :
    new <+: (splice off new old).drop off := by
  have hoff : (old.take off).length = off := by
    rw [List.length_take]
    omega
  -- Without the front, what is left begins with what was stored.
  have hdrop : (old.take off ++ (new ++ old.drop (off + new.length))).drop off
      = new ++ old.drop (off + new.length) := by
    rw [List.drop_append, hoff, Nat.sub_self, List.drop_zero, List.drop_take, Nat.sub_self,
      List.take_zero, List.nil_append]
  rw [splice, List.append_assoc, hdrop]
  exact List.prefix_append _ _

/-- What stands before a store still stands after it. -/
theorem prefix_splice_of_le (off k : Nat) (new old : List α) {seg : List α}
    (hk : k + seg.length ≤ off) (h : off + new.length ≤ old.length)
    (hseg : seg <+: old.drop k) : seg <+: (splice off new old).drop k := by
  have hoff : (old.take off).length = off := by
    rw [List.length_take]
    omega
  -- The piece ends before the store begins, so it lies in the front that is kept.
  have hfront : seg <+: (old.take off).drop k := by
    rw [List.drop_take]
    rw [List.prefix_iff_eq_take] at hseg ⊢
    rw [List.take_take, Nat.min_eq_left (by omega)]
    exact hseg
  refine hfront.trans ?_
  rw [splice, List.append_assoc, List.drop_append]
  exact List.prefix_append _ _

end Splice

end Words

end Foundation
