import ZeusOS.Binder.Arrival
import ZeusOS.Binder.Confined
import ZeusOS.Binder.Filling

/-!
# Empty Values on the Wire

A null string and a zero handle can be written, but they do not survive. A null
string is the length word of all ones, and the reader adds one to it, takes the
nothing that makes and hands out a pointer. A zero handle is an object without
an offset; the reader looks for the offset, does not find it and gives up the
rest of the message.

So the reader stays in step with the writer up to the first zero handle and
yields zeros from there on. An empty value comes out as one exactly if it is
that handle or stands behind it, and then everything behind it comes out empty
too.

## Main definitions

* `PutOp.Vacant`: The calls that write an empty value.
* `PutOp.wanted`, `wantedFrom`: What the matching calls are to yield.
* `Got.Agrees`: A yield is the one wanted, or as empty.

## Theorems

* `op_in_step`: Reading anything but a zero handle.
* `offsets_behind`: Where later offsets lie.
* `getRef_unlisted`: Reading a zero handle.
* `gets_spent`: A zero handle ends the reading.
* `vacant_spent`, `vacant_pointer`: What an empty value comes out as.
* `empty_values_iff`: When an empty value survives, and what follows it.
-/

namespace ZeusOS

namespace Binder

open Foundation.Words

/-- A null string or a zero handle. -/
inductive PutOp.Vacant : PutOp → Prop
  | string8 : Vacant (.string8 none)
  | string16 : Vacant (.string16 none)
  | string16X : Vacant (.string16X none)
  | ref : Vacant (.ref 0)

/-- What the matching call is to yield. The driver rewrites the objects and
    nothing else. -/
def PutOp.wanted (rewrite : UInt32 → UInt32) (op : PutOp) : Got :=
  op.expected (if op.isObject then rewrite else id)

/-- The yields wanted of a list of calls, from position `k` on. -/
def wantedFrom (rewrite : Nat → UInt32 → UInt32) : Nat → List PutOp → List Got
  | _, [] => []
  | k, op :: ops => op.wanted (rewrite k) :: wantedFrom rewrite (k + op.encodedSize) ops

/-- The value itself, or a null pointer for a null pointer, whatever is reported
    as its size. -/
def Got.Agrees (want got : Got) : Prop := got = want ∨ (want.Empty ∧ got.Empty)

theorem vacant_improper {op : PutOp} (h : op.Vacant) : ¬ op.Proper := by
  cases h with
  | string8 | string16 | string16X =>
      rintro ⟨s, hs, _⟩
      cases hs
  | ref => exact fun hne => hne rfl

variable {msg : List UInt8} {offs : List UInt32} {k : Nat} {p : Parcel}
  {rewrite : Nat → UInt32 → UInt32}

/-- Reading anything but a zero handle moves the reader on by what was written.
    A string that was not written comes out as a pointer all the same. -/
theorem op_in_step (hR : Reader msg offs k p) (op : PutOp) (hne : op ≠ .ref 0)
    (hop : Holds rewrite msg offs k op) (hle : k + op.encodedSize ≤ msg.length) :
    ∃ got p', op.getter.apply p = some (got, p') ∧ Reader msg offs (k + op.encodedSize) p' ∧
      (¬ op.Proper → ¬ got.Empty) := by
  by_cases hproper : op.Proper
  · rcases holds_reads rewrite hR op hproper hop hle with ⟨p', hget, hR'⟩
    exact ⟨_, p', hget, hR', fun h => absurd hproper h⟩
  · rcases improper_cases op hproper with href | ⟨hsegs, hobj, hgetter⟩
    · exact absurd href hne
    · have hsize := encodedSize_word op _ hsegs
      unfold Holds at hop
      rw [hobj, if_neg Bool.false_ne_true, hsegs] at hop
      rw [hsize] at hle ⊢
      rcases hgetter with h8 | h16
      · rcases nullWord_reads hR 1 hop.1 hle with ⟨p', hget, hR'⟩
        refine ⟨_, p', by rw [h8, GetOp.apply, Parcel.getString8, hget, Option.map_some], hR', ?_⟩
        exact fun _ hnone => Option.some_ne_none _ hnone
      · rcases nullWord_reads hR 2 hop.1 hle with ⟨p', hget, hR'⟩
        refine ⟨_, p', by rw [h16, GetOp.apply, Parcel.getString16, hget, Option.map_some], hR', ?_⟩
        exact fun _ hnone => Option.some_ne_none _ hnone

/-- The reader keeps step with the writer up to the first zero handle. -/
theorem gets_in_step (hR : Reader msg offs 0 p) (ops : List PutOp)
    (hnone : ∀ op ∈ ops, op ≠ .ref 0) (h : Layout rewrite msg offs ops k) :
    k = totalSize ops ∧ ∃ gots p', gets (ops.map PutOp.getter) p = some (gots, p') ∧
      Reader msg offs k p' := by
  induction h with
  | nil => exact ⟨rfl, [], p, rfl, hR⟩
  | snoc ops op k _ hop hle ih =>
      rcases ih (fun o ho => hnone o (List.mem_append_left _ ho)) with ⟨hk, gots, q, hq, hRq⟩
      have hlast := hnone op (List.mem_append_right _ (List.mem_singleton_self op))
      rcases op_in_step hRq op hlast hop hle with ⟨got, p', hget, hR', _⟩
      refine ⟨by rw [totalSize_snoc, hk], gots ++ [got], p', ?_, hR'⟩
      simp only [List.map_append, List.map_singleton, gets_snoc, hq, Option.bind_some, hget,
        Option.map_some]

/-- The front part of a layout is a layout. -/
theorem layout_front (ops later : List PutOp) :
    ∀ k, Layout rewrite msg offs (ops ++ later) k → ∃ k', Layout rewrite msg offs ops k' := by
  induction later using List.reverseRecOn with
  | nil => exact fun k h => ⟨k, by rwa [List.append_nil] at h⟩
  | append_singleton later op ih =>
      intro k h
      rw [← List.append_assoc] at h
      rcases layout_last _ _ h with ⟨k', _, hfront, _, _⟩
      exact ih k' hfront

/-- A layout has the call behind its front part. -/
theorem layout_next (ops later : List PutOp) (op : PutOp)
    (h : Layout rewrite msg offs (ops ++ op :: later) k) :
    ∃ k', Layout rewrite msg offs ops k' ∧ Holds rewrite msg offs k' op ∧
      k' + op.encodedSize ≤ msg.length := by
  rw [List.append_cons] at h
  rcases layout_front _ _ k h with ⟨k₁, h₁⟩
  rcases layout_last _ _ h₁ with ⟨k', hk, hfront, hop, hle⟩
  exact ⟨k', hfront, hop, by rwa [hk] at hle⟩

theorem gets_append (ops later : List GetOp) (p : Parcel) :
    gets (ops ++ later) p = (gets ops p).bind fun (vs, q) =>
      (gets later q).map fun (ws, q) => (vs ++ ws, q) := by
  induction ops generalizing p with
  | nil =>
      simp only [List.nil_append, gets, Option.bind_some]
      rcases gets later p with _ | ⟨ws, q⟩
      · rfl
      · rfl
  | cons op ops ih =>
      simp only [List.cons_append, gets]
      rcases op.apply p with _ | ⟨v, q⟩
      · rfl
      · simp only [Option.bind_some, ih]
        rcases gets ops q with _ | ⟨vs, r⟩
        · rfl
        · simp only [Option.bind_some, Option.map_some]
          rcases gets later r with _ | ⟨ws, r'⟩
          · rfl
          · rfl

/-- Offsets recorded later lie at or behind the cursor. -/
theorem offsets_behind (ops : List PutOp) {p : Parcel} (hW : Writer p) :
    ∃ p', puts ops p = some p' ∧ ∀ o ∈ p'.offsets, o ∈ p.offsets ∨ p.data ≤ o.toNat := by
  induction ops generalizing p with
  | nil => exact ⟨p, rfl, fun o ho => Or.inl ho⟩
  | cons op ops ih =>
      rcases apply_grown op p hW with ⟨q, hq, hgrown, hoffs⟩
      rcases ih hgrown.writer with ⟨r, hr, hlater⟩
      have hdata := grown_data hW hgrown
      refine ⟨r, by rw [puts, hq, Option.bind_some, hr], fun o ho => ?_⟩
      rcases hlater o ho with hold | hge
      · rcases hoffs with hsame | ⟨hnew, _⟩
        · rw [hsame] at hold
          exact Or.inl hold
        · rw [hnew] at hold
          rcases List.mem_append.mp hold with hold | hlast
          · exact Or.inl hold
          · -- The offset this call recorded is the cursor itself.
            have hroom := hW.room
            have havail := hW.avail
            rw [List.mem_singleton.mp hlast, UInt32.toNat_ofNat']
            exact Or.inr (by omega)
      · exact Or.inr (by omega)

/-- A zero handle is not where any of the recorded offsets point. -/
theorem zeroHandle_unlisted {io : IoData} {ops later : List PutOp}
    (hputs : puts (ops ++ .ref 0 :: later) (Parcel.new io) = some p)
    (hclear : p.flags.overflow = false) : UInt32.ofNat (totalSize ops) ∉ p.offsets := by
  intro hmem
  have hW := writer_new io
  rw [List.append_cons, puts_append, Option.bind_eq_some_iff] at hputs
  rcases hputs with ⟨q, hq, hlater⟩
  have hWq := writer_of_puts hq
  -- The flag was clear before, since it never falls.
  have hqclear : q.flags.overflow = false := by
    rcases writer_puts later q hWq with ⟨p', hp', _, hstick⟩
    rw [hlater, Option.some.injEq] at hp'
    subst hp'
    by_contra hov
    rw [hstick (by simpa only [Bool.not_eq_false] using hov)] at hclear
    exact absurd hclear Bool.true_eq_false_eq_False
  have hqdata : q.data = totalSize ops + 16 := by
    have hsize := (layout_of_puts io (fun _ v => v) _ q hq hqclear).2.1
    rwa [payload_length q hWq, totalSize_snoc, encodedSize_flatObject _ _ _ rfl] at hsize
  rcases puts_snoc ops (.ref 0) _ q hW hq hqclear with ⟨q₀, hq₀, hW₀, hq₀clear, hwrote⟩
  rcases hwrote.wrote hqclear with ⟨_, _, _, hoffs⟩
  rcases layout_of_puts io (fun _ v => v) ops q₀ hq₀ hq₀clear with ⟨hin, hsize₀, _⟩
  have hle := payload_length_le q₀ hW₀
  have hpos : (UInt32.ofNat (totalSize ops)).toNat = totalSize ops := by
    rw [UInt32.toNat_ofNat']
    omega
  rcases offsets_behind later hWq with ⟨p', hp', hbehind⟩
  rw [hlater, Option.some.injEq] at hp'
  subst hp'
  rcases hbehind _ hmem with hold | hge
  · -- What was recorded before ends where the handle starts.
    rw [hoffs] at hold
    rcases List.mem_append.mp hold with hold | hnone
    · have := hin _ hold
      omega
    · exact absurd hnone List.not_mem_nil
  · omega

/-- Reading an object that is not listed yields zero and ends the reading. -/
theorem getRef_unlisted (hR : Reader msg offs k p) (hnot : UInt32.ofNat k ∉ offs) :
    p.getRef = some (0, p.exhausted) := by
  rcases hR.tab with ⟨rest, hrest⟩
  rw [Parcel.getRef, Parcel.getObjOf, Parcel.getObj, hR.data, hR.slots, hR.start, List.drop_zero,
    ← hrest, Int.toNat_natCast, searchOffs_eq, decide_eq_false hnot]
  rfl

theorem gets_length {ops : List GetOp} {gots : List Got} {p q : Parcel}
    (h : gets ops p = some (gots, q)) : gots.length = ops.length := by
  induction ops generalizing p gots with
  | nil =>
      simp only [gets, Option.some.injEq, Prod.mk.injEq] at h
      rw [← h.1]
      rfl
  | cons op ops ih =>
      rcases gets_cons_some h with ⟨got, r, rest, _, hrest, rfl⟩
      rw [List.length_cons, List.length_cons, ih hrest]

theorem wantedFrom_length (rewrite : Nat → UInt32 → UInt32) (k : Nat) (ops : List PutOp) :
    (wantedFrom rewrite k ops).length = ops.length := by
  induction ops generalizing k with
  | nil => rfl
  | cons op ops ih => rw [wantedFrom, List.length_cons, List.length_cons, ih]

/-- Zeros agree with what was wanted exactly if zeros were wanted. -/
theorem agrees_empty_iff (wants gots : List Got) (hlen : wants.length = gots.length)
    (hempty : ∀ got ∈ gots, got.Empty) :
    List.Forall₂ Got.Agrees wants gots ↔ ∀ want ∈ wants, want.Empty := by
  induction wants generalizing gots with
  | nil =>
      rw [List.length_nil] at hlen
      rw [List.length_eq_zero_iff.mp hlen.symm]
      exact iff_of_true List.Forall₂.nil fun _ h => absurd h List.not_mem_nil
  | cons want wants ih =>
      cases gots with
      | nil => exact absurd hlen (Nat.succ_ne_zero _)
      | cons got gots =>
          have hgot := hempty got List.mem_cons_self
          have hrest := ih gots (Nat.succ.inj hlen) fun g hg => hempty g (List.mem_cons_of_mem _ hg)
          rw [List.forall₂_cons, List.forall_mem_cons, hrest]
          refine and_congr_left fun _ => ⟨?_, fun hwant => Or.inr ⟨hwant, hgot⟩⟩
          rintro (heq | ⟨hwant, _⟩)
          · rwa [← heq]
          · exact hwant

section Sent

variable {io : IoData} {before after ops later : List PutOp} {e : PutOp} {sent : Parcel}
  {recv : List UInt8} {mem : Mapping} {txn : Txn} {gots : List Got} {got : Got} {r r' : Parcel}

theorem readable_of_carries {recv : List UInt8} {offs : List UInt32}
    (h : Carries mem txn recv offs) : Readable mem txn := by
  have hbytes := h.bytes.length_le
  have hwords := h.words.length_le
  have hsize := h.offsetsSize
  refine ⟨by rw [h.dataSize]; exact hbytes, ?_⟩
  rw [UInt32.toNat_div]
  change txn.offsetsSize.toNat / 4 ≤ _
  omega

/-- Up to the first zero handle the reader is in step with what was written. -/
theorem gets_sent (hputs : puts (before ++ e :: after) (Parcel.new io) = some sent)
    (hclear : sent.flags.overflow = false) (hrecv : Delivered sent.offsets rewrite sent.payload recv)
    (htxn : Carries mem txn recv sent.offsets) (hnone : PutOp.ref 0 ∉ before)
    (hgots : gets (before.map PutOp.getter) (Parcel.bioInitFromTxn mem txn) = some (gots, r)) :
    Reader recv sent.offsets (totalSize before) r ∧
      Holds rewrite recv sent.offsets (totalSize before) e ∧
        totalSize before + e.encodedSize ≤ recv.length := by
  rcases layout_of_puts io rewrite _ sent hputs hclear with ⟨_, _, hlay⟩
  have hbound := payload_length_le sent (writer_of_puts hputs)
  have hR := reader_init mem txn recv sent.offsets htxn (by rw [hrecv.length]; omega)
  rcases layout_next _ _ _ (hlay recv hrecv) with ⟨k, hfront, hop, hle⟩
  rcases gets_in_step hR before (fun op hop' heq => hnone (by rw [← heq]; exact hop')) hfront
    with ⟨rfl, gots', r', hgets, hRr⟩
  rw [hgots, Option.some.injEq, Prod.mk.injEq] at hgets
  rw [← hgets.2] at hRr
  exact ⟨hRr, hop, hle⟩

/-- The first zero handle comes out as zero and ends the reading. -/
theorem getRef_sent (hputs : puts (before ++ .ref 0 :: after) (Parcel.new io) = some sent)
    (hclear : sent.flags.overflow = false) (hrecv : Delivered sent.offsets rewrite sent.payload recv)
    (htxn : Carries mem txn recv sent.offsets) (hnone : PutOp.ref 0 ∉ before)
    (hgots : gets (before.map PutOp.getter) (Parcel.bioInitFromTxn mem txn) = some (gots, r)) :
    GetOp.ref.apply r = some (.word 0, r.exhausted) := by
  have hR := (gets_sent hputs hclear hrecv htxn hnone hgots).1
  rw [GetOp.apply, getRef_unlisted hR (zeroHandle_unlisted hputs hclear), Option.map_some]

/-- A zero handle ends the reading for good. -/
theorem gets_spent (hputs : puts (ops ++ later) (Parcel.new io) = some sent)
    (hclear : sent.flags.overflow = false) (hrecv : Delivered sent.offsets rewrite sent.payload recv)
    (htxn : Carries mem txn recv sent.offsets) (hmem : PutOp.ref 0 ∈ ops)
    (hgots : gets (ops.map PutOp.getter) (Parcel.bioInitFromTxn mem txn) = some (gots, r)) :
    r.flags.overflow = true := by
  -- The first zero handle is found in step, and what comes behind it is not read any more.
  rcases List.eq_append_cons_of_mem hmem with ⟨pre, post, rfl, hfirst⟩
  have hconf := init_confined mem txn
  rw [List.append_assoc, List.cons_append] at hputs
  rw [List.map_append, gets_append, Option.bind_eq_some_iff] at hgots
  rcases hgots with ⟨⟨front, q⟩, hfront, hrest⟩
  have href := getRef_sent hputs hclear hrecv htxn hfirst hfront
  have hspent := (apply_confined (gets_confined hconf hfront).1 href).1
  simp only [List.map_cons, gets, PutOp.getter, href, Option.bind_some, Option.map_map,
    Option.map_eq_some_iff, Function.comp_apply, Prod.mk.injEq, Prod.exists] at hrest
  rcases hrest with ⟨rest, q', hrest, _, rfl⟩
  exact ((gets_confined hspent hrest).2.1.stuck rfl).2

/-- At or behind a zero handle an empty value comes out empty, and so does all
    that follows. -/
theorem vacant_spent (hputs : puts (before ++ e :: after) (Parcel.new io) = some sent)
    (hclear : sent.flags.overflow = false) (hrecv : Delivered sent.offsets rewrite sent.payload recv)
    (htxn : Carries mem txn recv sent.offsets)
    (hgots : gets (before.map PutOp.getter) (Parcel.bioInitFromTxn mem txn) = some (gots, r))
    (hgot : e.getter.apply r = some (got, r')) (hzero : e = .ref 0 ∨ .ref 0 ∈ before) :
    got.Empty ∧ r'.flags.overflow = true := by
  by_cases hbefore : PutOp.ref 0 ∈ before
  · have hov := gets_spent hputs hclear hrecv htxn hbefore hgots
    have hr := (gets_confined (init_confined mem txn) hgots).1
    rcases apply_confined hr hgot with ⟨_, hon, hempty⟩
    exact ⟨hempty hov, (hon.stuck hov).2⟩
  · rcases hzero with rfl | hin
    · rw [PutOp.getter, getRef_sent hputs hclear hrecv htxn hbefore hgots, Option.some.injEq,
        Prod.mk.injEq] at hgot
      rw [← hgot.1, ← hgot.2]
      exact ⟨rfl, rfl⟩
    · exact absurd hin hbefore

/-- A null string that is read in step comes out as a pointer. -/
theorem vacant_pointer (hputs : puts (before ++ e :: after) (Parcel.new io) = some sent)
    (hclear : sent.flags.overflow = false) (hrecv : Delivered sent.offsets rewrite sent.payload recv)
    (htxn : Carries mem txn recv sent.offsets) (hvacant : e.Vacant)
    (hgots : gets (before.map PutOp.getter) (Parcel.bioInitFromTxn mem txn) = some (gots, r))
    (hgot : e.getter.apply r = some (got, r')) (hempty : got.Empty) :
    e = .ref 0 ∨ .ref 0 ∈ before := by
  by_contra hnone
  rw [not_or] at hnone
  rcases gets_sent hputs hclear hrecv htxn hnone.2 hgots with ⟨hR, hop, hle⟩
  rcases op_in_step hR e hnone.1 hop hle with ⟨got₁, r₂, hget₁, _, hpointer⟩
  rw [hgot, Option.some.injEq, Prod.mk.injEq] at hget₁
  rw [← hget₁.1] at hpointer
  exact hpointer (vacant_improper hvacant) hempty

/-- An empty value written among others comes out empty, and the values behind
    it as they were written, exactly if a zero handle was written up to it and
    all values behind it are empty themselves. -/
theorem empty_values_iff (hputs : puts (before ++ e :: after) (Parcel.new io) = some sent)
    (hclear : sent.flags.overflow = false) (hrecv : Delivered sent.offsets rewrite sent.payload recv)
    (htxn : Carries mem txn recv sent.offsets) (hvacant : e.Vacant) :
    ∃ gots got gots' q,
      gets ((before ++ e :: after).map PutOp.getter) (Parcel.bioInitFromTxn mem txn)
        = some (gots ++ got :: gots', q) ∧
      gots.length = before.length ∧ gots'.length = after.length ∧
      ((got.Empty ∧ List.Forall₂ Got.Agrees
          (wantedFrom rewrite (totalSize before + e.encodedSize) after) gots') ↔
        (e = .ref 0 ∨ .ref 0 ∈ before) ∧
          ∀ want ∈ wantedFrom rewrite (totalSize before + e.encodedSize) after, want.Empty) := by
  have hreadable := readable_of_carries htxn
  rcases gets_readable (before.map PutOp.getter) hreadable (init_confined mem txn)
    with ⟨gots, r, hgots⟩
  have hr := (gets_confined (init_confined mem txn) hgots).1
  rcases apply_readable e.getter hreadable hr with ⟨got, r', hgot⟩
  have hr' := (apply_confined hr hgot).1
  rcases gets_readable (after.map PutOp.getter) hreadable hr' with ⟨gots', q, hgots'⟩
  have hlen : gots'.length = after.length := by
    rw [gets_length hgots', List.length_map]
  have hwants := wantedFrom_length rewrite (totalSize before + e.encodedSize) after
  -- Behind a zero handle only zeros are read, so they are right only where zeros were wanted.
  have hzeros : r'.flags.overflow = true → (List.Forall₂ Got.Agrees
      (wantedFrom rewrite (totalSize before + e.encodedSize) after) gots' ↔
        ∀ want ∈ wantedFrom rewrite (totalSize before + e.encodedSize) after, want.Empty) :=
    fun hov => agrees_empty_iff _ _ (by rw [hwants, hlen]) ((gets_confined hr' hgots').2.2 hov)
  refine ⟨gots, got, gots', q, ?_, by rw [gets_length hgots, List.length_map], hlen, ?_⟩
  · simp only [List.map_append, List.map_cons, gets_append, hgots, Option.bind_some, gets, hgot,
      hgots', Option.map_some]
  · constructor
    · rintro ⟨hgotEmpty, hagree⟩
      have hzero := vacant_pointer hputs hclear hrecv htxn hvacant hgots hgot hgotEmpty
      have hov := (vacant_spent hputs hclear hrecv htxn hgots hgot hzero).2
      exact ⟨hzero, (hzeros hov).mp hagree⟩
    · rintro ⟨hzero, hwant⟩
      rcases vacant_spent hputs hclear hrecv htxn hgots hgot hzero with ⟨hgotEmpty, hov⟩
      exact ⟨hgotEmpty, (hzeros hov).mpr hwant⟩

end Sent

theorem carries_plain (bytes : List UInt8) (h : bytes.length < 2 ^ 32) :
    Carries (plainMapping bytes) (plainTxn bytes) bytes [] :=
  ⟨List.prefix_refl _, List.prefix_refl _, UInt32.toNat_ofNat_of_lt' h, rfl⟩

/-- A zero handle before a word. -/
theorem empty_values_word :
    ∃ gots got gots' q,
      gets [.ref, .uint32] (Parcel.bioInitFromTxn
          (plainMapping (Parcel.flatObject binderTypeHandle 0 ++ le32 7))
          (plainTxn (Parcel.flatObject binderTypeHandle 0 ++ le32 7)))
        = some (gots ++ got :: gots', q) ∧
      gots.length = 0 ∧ gots'.length = 1 ∧
      ((got.Empty ∧ List.Forall₂ Got.Agrees [.word 7] gots') ↔
        (PutOp.ref 0 = .ref 0 ∨ PutOp.ref 0 ∈ ([] : List PutOp)) ∧
          ∀ want ∈ [Got.word 7], want.Empty) := by
  have hrun : (puts [.ref 0, .uint32 7] (Parcel.new sampleIo)).map
      (fun p => (p.flags.overflow, p.offsets, p.payload))
      = some (false, [], Parcel.flatObject binderTypeHandle 0 ++ le32 7) := by decide +kernel
  rcases Option.map_eq_some_iff.mp hrun with ⟨sent, hputs, hfacts⟩
  simp only [Prod.mk.injEq] at hfacts
  rcases hfacts with ⟨hclear, hoffs, hpay⟩
  have hsent := delivered_nil (fun _ v => v) sent.payload
  have hcarries := carries_plain sent.payload (by rw [hpay]; decide)
  rw [← hoffs] at hsent hcarries
  have hcalls : puts ([] ++ .ref 0 :: [.uint32 7]) (Parcel.new sampleIo) = some sent := hputs
  rw [← hpay]
  exact empty_values_iff hcalls hclear hsent hcarries PutOp.Vacant.ref

/-- A null string comes out as a pointer. -/
theorem null_string_pointer : ¬ ∀ (io : IoData) (before after : List PutOp) (e : PutOp)
    (sent : Parcel) (rewrite : Nat → UInt32 → UInt32) (recv : List UInt8) (mem : Mapping)
    (txn : Txn), puts (before ++ e :: after) (Parcel.new io) = some sent →
      sent.flags.overflow = false → Delivered sent.offsets rewrite sent.payload recv →
        Carries mem txn recv sent.offsets → e.Vacant →
          ∃ gots got gots' q,
            gets ((before ++ e :: after).map PutOp.getter) (Parcel.bioInitFromTxn mem txn)
              = some (gots ++ got :: gots', q) ∧
            gots.length = before.length ∧ got.Empty ∧ List.Forall₂ Got.Agrees
              (wantedFrom rewrite (totalSize before + e.encodedSize) after) gots' := by
  intro h
  have hrun : (puts [.string8 none] (Parcel.new sampleIo)).map
      (fun p => (p.flags.overflow, p.offsets, p.payload))
      = some (false, [], le32 0xffffffff) := by decide +kernel
  rcases Option.map_eq_some_iff.mp hrun with ⟨sent, hputs, hfacts⟩
  simp only [Prod.mk.injEq] at hfacts
  rcases hfacts with ⟨hclear, hoffs, hpay⟩
  have hsent := delivered_nil (fun _ v => v) sent.payload
  have hcarries := carries_plain sent.payload (by rw [hpay]; decide)
  rw [← hoffs] at hsent hcarries
  rcases h sampleIo [] [] (.string8 none) sent (fun _ v => v) sent.payload _ _ hputs hclear hsent
    hcarries PutOp.Vacant.string8 with ⟨gots, got, gots', q, hgets, hlen, hempty, _⟩
  -- The four bytes are read, and a pointer behind them is what comes out.
  have hread : gets [.string8] (Parcel.bioInitFromTxn (plainMapping (le32 0xffffffff))
      (plainTxn (le32 0xffffffff))) = some ([.string8 (some []) 0xffffffff], _) := rfl
  rw [hpay, List.length_eq_zero_iff.mp hlen] at hgets
  rw [List.nil_append, List.map_singleton, PutOp.getter, hread, Option.some.injEq,
    Prod.mk.injEq, List.nil_append, List.cons.injEq] at hgets
  rw [← hgets.1.1] at hempty
  exact Option.some_ne_none _ hempty

end Binder

end ZeusOS
