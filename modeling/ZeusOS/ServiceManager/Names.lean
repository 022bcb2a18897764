import Mathlib.Data.List.TakeWhile
import ZeusOS.Binder.Room
import ZeusOS.ServiceManager.Lookup

/-!
# Names with a Zero in Them

A registration goes by the length that was sent, and a lookup by what `strlen`
makes of the bytes; the length sent with a lookup is read and dropped. For a
name without a zero byte the two are the same thing. The wire carries any
bytes, though, and a name with a zero in it is stored whole and looked up by
the part before the zero, which may be another service's name.

A registration changes what its own key stands for and nothing else
(`added_find`), so what a lookup comes upon is settled by the key it makes of
its bytes (`lookedUp_terminated`).

## Main definitions

* `upToZero`: What `strlen` sees of a name.
* `lookedUp`, `lookupKey`: The record a lookup comes upon, and the key it goes
  by.
* `Registers`, `LooksUp`: The two requests, and the strings they carry.
* `Answered`: A lookup answered with a handle.
* `Searchable`: A list that can be searched for short names.

## Theorems

* `run_searchable`: Every list of a run is one.
* `added_find`: What a registration changes.
* `answered_iff`: The answer is the record's handle.
* `lookup_iff`: When a lookup finds what was registered.
-/

namespace ZeusOS

namespace ServiceManager

open Foundation Foundation.Words Foundation.Runs Binder

/-- The bytes of a name before its first zero. -/
def upToZero (name : List UInt8) : List UInt8 := name.takeWhile fun c => c ≠ 0

/-- The record `getService` comes upon. -/
def lookedUp (str : List UInt8) (svclist : List SvcInfo) : Option (Option SvcInfo) :=
  (strlen str).bind fun len => findSvc str (UInt32.ofNat len) svclist

/-- What `getService` makes of that record. -/
theorem getService_lookedUp (str : List UInt8) (svclist : List SvcInfo) :
    getService str svclist
      = (lookedUp str svclist).map fun found => (found.map SvcInfo.handle).getD 0 := by
  rw [getService, lookedUp, Option.map_bind]
  congr 1
  funext len
  rw [Function.comp_apply]
  congr 1
  funext found
  cases found with
  | none => rfl
  | some si =>
      simp only [Option.map_some, Option.getD_some]
      by_cases hhandle : si.handle ≠ 0
      · rw [if_pos hhandle]
      · rw [if_neg hhandle, not_not.mp hhandle]

/-- A registration, with the record of its fields and the bytes from its name
    on. -/
structure Registers (mem : Mapping) (txn : Txn) (ref : BinderRef) (str : List UInt8) : Prop where
  target : txn.target = 0
  code : txn.code = svcMgrAddService
  carried : ∃ msg, (Parcel.bioInitFromTxn mem txn).getUint32 = some (0, msg) ∧
    readAddService txn msg = some (some (str, ref))

/-- A lookup, with the length it carries and the bytes from its string on. -/
structure LooksUp (mem : Mapping) (txn : Txn) (len : UInt32) (str : List UInt8) : Prop where
  target : txn.target = 0
  code : txn.code = svcMgrGetService ∨ txn.code = svcMgrCheckService
  carried : ∃ msg₁ msg₂ ptr, (Parcel.bioInitFromTxn mem txn).getUint32 = some (0, msg₁) ∧
    msg₁.getString8 = some ((some ptr, len), msg₂) ∧ str = msg₂.buf.drop ptr

/-- A lookup is answered with a handle. -/
def Answered (alloc : Allocator) (mem : Mapping) (txn : Txn) (io : IoData)
    (svclist : List SvcInfo) (handle : UInt32) : Prop :=
  ∃ reply, (Parcel.new io).putRef handle = some reply ∧
    onTransact alloc txn (Parcel.bioInitFromTxn mem txn) (Parcel.new io) svclist
      = some { status := 0, reply, writes := [], state := svclist }

/-- A list that can be searched for a name of up to 127 bytes: the records with
    such a length hold as many bytes. -/
structure Searchable (svclist : List SvcInfo) : Prop where
  distinct : Distinct svclist
  stored : ∀ si ∈ svclist, si.len.toNat ≤ 127 → si.len.toNat ≤ si.name.length

theorem searchable_update {svclist : List SvcInfo} {si : SvcInfo} (h : Searchable svclist)
    (hmem : si ∈ svclist) (handle : UInt32) : Searchable (update svclist { si with handle }) := by
  refine ⟨distinct_update _ h.distinct, ?_⟩
  rw [update_handle h.distinct hmem]
  intro e he hshort
  rcases List.mem_map.mp he with ⟨e', he', rfl⟩
  by_cases haddr : e'.addr = si.addr
  · rw [if_pos haddr] at hshort ⊢
    exact h.stored e' he' hshort
  · rw [if_neg haddr] at hshort ⊢
    exact h.stored e' he' hshort

theorem transacted_searchable {alloc : Allocator} {txn : Txn} {msg : Parcel}
    {svclist svclist' : List SvcInfo} {writes : List RefCommand} (hs : Searchable svclist)
    (h : Transacted alloc txn msg svclist writes svclist') : Searchable svclist' := by
  have hdistinct := transacted_distinct h hs.distinct
  cases h with
  | unchanged => exact hs
  | added _ name ref _ _ _ _ _ _ hadd =>
      cases hadd with
      | bound si _ hfind => exact searchable_update hs (findSvc_some hfind).1 ref.handle
      | inserted addr si hvalid _ _ hnew =>
          refine ⟨hdistinct, fun e he hshort => ?_⟩
          rcases List.mem_cons.mp he with rfl | he
          · -- The one record with too few bytes has too large a length.
            rcases newSvc_some hvalid hnew with ⟨_, _, hminus | ⟨_, _, hlen, _, hcopied, hname⟩⟩
            · rw [hminus.2.1] at hshort
              exact absurd hshort (by decide)
            · rw [hlen, hname, List.length_append, List.length_take]
              omega
          · exact hs.stored e he hshort

theorem step_searchable (s : State) (i : Input) (s' : State) (hs : Searchable s.svclist)
    (h : step s i = some s') : Searchable s'.svclist := by
  cases i with
  | death cookie =>
      simp only [step, Option.map_eq_some_iff, Prod.exists] at h
      rcases h with ⟨writes, svclist', hdeath, rfl⟩
      rcases binderDeath_cases hdeath with ⟨si, hmem, _, _, rfl⟩
      exact searchable_update hs hmem 0
  | transact alloc mem txn io =>
      simp only [step, Option.map_eq_some_iff] at h
      rcases h with ⟨res, hres, rfl⟩
      exact transacted_searchable hs (onTransact_cases hres)

theorem searchable_nil : Searchable [] :=
  ⟨List.nodup_nil, fun _ hsi => absurd hsi List.not_mem_nil⟩

/-- Every list of a run can be searched. -/
theorem run_searchable {inputs : List Input} {s : State}
    (hrun : run step State.init inputs = some s) : Searchable s.svclist :=
  run_invariant step (fun s => Searchable s.svclist) step_searchable State.init s inputs
    searchable_nil hrun

theorem upToZero_length (name : List UInt8) : (upToZero name).length ≤ name.length :=
  (List.takeWhile_prefix _).length_le

theorem upToZero_eq (name : List UInt8) : upToZero name = name ↔ 0 ∉ name := by
  rw [upToZero, List.takeWhile_eq_self_iff]
  constructor
  · intro h hzero
    exact absurd rfl (of_decide_eq_true (h 0 hzero))
  · intro h c hc
    exact decide_eq_true fun hzero => h (hzero ▸ hc)

/-- Of a name that is terminated `strlen` counts the bytes before its first
    zero. -/
theorem strlen_upToZero (name rest : List UInt8) :
    strlen (name ++ 0 :: rest) = some (upToZero name).length := by
  unfold upToZero
  induction name with
  | nil => rfl
  | cons c name ih =>
      rw [List.cons_append, strlen, List.takeWhile_cons]
      by_cases hzero : c = 0
      · rw [if_pos hzero, if_neg (by simp [hzero])]
        rfl
      · rw [if_neg hzero, if_pos (decide_eq_true hzero), ih]
        rfl

/-- Where `strlen` ends, the bytes it counted are followed by the first
    zero. -/
theorem strlen_some {str : List UInt8} {n : Nat} (h : strlen str = some n) :
    0 ∉ str.take n ∧ ∃ rest, str = str.take n ++ 0 :: rest := by
  induction str generalizing n with
  | nil => cases h
  | cons c str ih =>
      unfold strlen at h
      by_cases hzero : c = 0
      · rw [if_pos hzero, Option.some.injEq] at h
        rw [← h, hzero]
        exact ⟨List.not_mem_nil, str, rfl⟩
      · rw [if_neg hzero, Option.map_eq_some_iff] at h
        rcases h with ⟨m, hm, rfl⟩
        rcases ih hm with ⟨hnone, rest, hrest⟩
        refine ⟨?_, rest, ?_⟩
        · rw [List.take_succ_cons, List.mem_cons]
          rintro (hc | hc)
          · exact hzero hc.symm
          · exact hnone hc
        · rw [List.take_succ_cons, List.cons_append, ← hrest]

/-- The key a lookup goes by. -/
def lookupKey (name : List UInt8) : UInt32 × List UInt8 :=
  (UInt32.ofNat (upToZero name).length, upToZero name)

/-- A lookup of a name that is terminated comes upon the record of its key. -/
theorem lookedUp_terminated {svclist : List SvcInfo} (hs : Searchable svclist)
    {name : List UInt8} (hshort : name.length ≤ 127) (rest : List UInt8) :
    lookedUp (name ++ 0 :: rest) svclist
      = some (svclist.find? fun si => si.key = lookupKey name) := by
  have hle := upToZero_length name
  have hnat : (UInt32.ofNat (upToZero name).length).toNat = (upToZero name).length :=
    UInt32.toNat_ofNat_of_lt' (by change _ < 2 ^ 32; omega)
  have htake : (name ++ 0 :: rest).take (upToZero name).length = upToZero name :=
    (List.prefix_iff_eq_take.mp
      ((List.takeWhile_prefix _).trans (List.prefix_append name _))).symm
  rw [lookedUp, strlen_upToZero, Option.bind_some, findSvc_eq, hnat, htake]
  · rfl
  · intro si hsi hlen
    refine hs.stored si hsi ?_
    rw [hlen, hnat]
    omega
  · rw [hnat, List.length_append]
    omega

/-- Another handle is put into one record, and a search for another key ends
    where it did. -/
theorem bound_find {svclist : List SvcInfo} (hs : Searchable svclist) {si : SvcInfo}
    (hfind : (svclist.find? fun e => e.key = si.key) = some si) (handle : UInt32)
    (k : UInt32 × List UInt8) :
    ((svclist.map fun e => if e.addr = si.addr then { e with handle := handle } else e).find?
        fun e => e.key = k)
      = if k = si.key then some { si with handle := handle }
        else svclist.find? fun e => e.key = k := by
  rcases Keyed.find_some hfind with ⟨hmem, _⟩
  have hkeys : ∀ e ∈ svclist,
      (if e.addr = si.addr then { e with handle := handle } else e).key = e.key := by
    intro e _
    by_cases haddr : e.addr = si.addr
    · rw [if_pos haddr]
      rfl
    · rw [if_neg haddr]
  rw [Keyed.find_map _ hkeys]
  by_cases hk : k = si.key
  · rw [if_pos hk, hk, hfind, Option.map_some, if_pos rfl]
  · -- A record with another key is another record, and that is left as it is.
    rw [if_neg hk]
    cases hentry : svclist.find? fun e => e.key = k with
    | none => rfl
    | some e =>
        have hne : e.addr ≠ si.addr := by
          intro haddr
          rcases Keyed.find_some hentry with ⟨he, hek⟩
          rw [List.inj_on_of_nodup_map hs.distinct he hmem haddr] at hek
          exact hk hek.symm
        rw [Option.map_some, if_neg hne]

/-- A registration that succeeds binds one key, and no search for another ends
    anywhere else than before. -/
theorem added_find {alloc : Allocator} {str : List UInt8} {ref : BinderRef}
    {svclist svclist' : List SvcInfo} {writes : List RefCommand} (hs : Searchable svclist)
    (hshort : ref.len.toNat ≤ 127) (hstr : ref.len.toNat ≤ str.length)
    (h : Added alloc str ref svclist 0 writes svclist') :
    ∃ e ∈ svclist', e.key = (ref.len, str.take ref.len.toNat) ∧ e.handle = ref.handle ∧
      ref.handle ≠ 0 ∧
      ∀ k, (svclist'.find? fun si => si.key = k)
        = if k = e.key then some e else svclist.find? fun si => si.key = k := by
  -- The search that comes first is for the key the record will have.
  have hstored : ∀ si ∈ svclist, si.len = ref.len → si.len.toNat ≤ si.name.length :=
    fun si hsi hlen => hs.stored si hsi (by rw [hlen]; exact hshort)
  have hsearch := findSvc_eq hstored hstr
  cases h with
  | bound si hvalid hfind =>
      rw [hsearch, Option.some.injEq] at hfind
      rcases Keyed.find_some hfind with ⟨hmem, hkey⟩
      rw [← hkey] at hfind
      rw [update_handle hs.distinct hmem ref.handle]
      exact ⟨{ si with handle := ref.handle }, List.mem_map.mpr ⟨si, hmem, if_pos rfl⟩, hkey, rfl,
        fun hc => hvalid (Or.inl hc), bound_find hs hfind ref.handle⟩
  | inserted addr si hvalid hfind hmalloc hnew =>
      rcases newSvc_some hvalid hnew with ⟨_, hhandle, hminus | ⟨_, _, hlen, _, _, hname⟩⟩
      · rw [hminus.1] at hshort
        exact absurd hshort (by decide)
      · have hkey : si.key = (ref.len, str.take ref.len.toNat) := by
          rw [SvcInfo.key, hlen, hname, List.take_append_of_le_length
            (by rw [List.length_take]; omega), List.take_take, Nat.min_self]
        refine ⟨si, List.mem_cons_self, hkey, hhandle, fun hc => hvalid (Or.inl hc), fun k => ?_⟩
        rw [List.find?_cons]
        by_cases hk : k = si.key
        · rw [if_pos hk, decide_eq_true hk.symm]
        · rw [if_neg hk, decide_eq_false (Ne.symm hk)]

/-- What a lookup puts into the reply, as one value. -/
def answerOp (handle : UInt32) : PutOp := if handle ≠ 0 then .ref handle else .uint32 0

theorem answerOp_apply (handle : UInt32) (reply : Parcel) :
    (answerOp handle).apply reply
      = if handle ≠ 0 then reply.putRef handle else reply.putUint32 0 := by
  unfold answerOp
  by_cases hhandle : handle ≠ 0
  · rw [if_pos hhandle, if_pos hhandle]
    rfl
  · rw [if_neg hhandle, if_neg hhandle]
    rfl

/-- The value can be told from the payload: nothing comes that far behind a
    number, and an object has its handle there. -/
theorem answer_payload {io : IoData} {handle : UInt32} {reply : Parcel}
    (h : (answerOp handle).apply (Parcel.new io) = some reply) :
    load32 (reply.payload.drop 8) = if handle ≠ 0 then some handle else none := by
  by_cases hhandle : handle ≠ 0
  · rw [answerOp, if_pos hhandle] at h
    have hobj : (PutOp.ref handle).isObject = true := decide_eq_true hhandle
    have hpay := apply_new_payload (by rw [object_size _ hobj]; decide) h
    generalize reply.payload = payload at hpay ⊢
    rw [PutOp.segments] at hpay
    rcases hpay with _ | ⟨_, pad, _, rest, hpad, hrest⟩
    rw [if_pos hhandle, Parcel.flatObject, List.append_assoc, List.append_assoc, List.append_assoc,
      List.append_assoc]
    exact load32_le32 handle _
  · rw [answerOp, if_neg hhandle] at h
    have hpay := apply_new_payload (by rw [encodedSize_uint32]; decide) h
    have hlen := padded_size _ _ hpay
    rw [encodedSize_uint32] at hlen
    rw [if_neg hhandle, List.drop_eq_nil_of_le (by omega)]
    rfl

/-- A lookup is answered with a handle exactly when that is what `getService`
    finds. -/
theorem answered_iff {alloc : Allocator} {mem : Mapping} {txn : Txn} {io : IoData}
    {svclist : List SvcInfo} {len handle : UInt32} {str : List UInt8}
    (hlookup : LooksUp mem txn len str) (hhandle : handle ≠ 0) :
    Answered alloc mem txn io svclist handle ↔ getService str svclist = some handle := by
  rcases hlookup.carried with ⟨msg₁, msg₂, ptr, hpolicy, hstring, hstr⟩
  rw [Answered, onTransact_get hlookup.target hlookup.code hpolicy hstring, ← hstr]
  constructor
  · rintro ⟨reply, hput, h⟩
    simp only [Option.bind_eq_some_iff, Option.map_eq_some_iff, Handled.mk.injEq] at h
    rcases h with ⟨found, hfound, reply', hanswer, _, hreply, _⟩
    -- Two answers that are the same reply are the same handle.
    rw [← answerOp_apply, hreply] at hanswer
    have hputs : (answerOp handle).apply (Parcel.new io) = some reply := by
      rw [answerOp_apply, if_pos hhandle, hput]
    have hload := answer_payload hputs
    rw [answer_payload hanswer, if_pos hhandle] at hload
    rw [hfound, ← hload]
    by_cases hne : found ≠ 0
    · rw [if_pos hne]
    · rw [if_neg hne] at hload
      cases hload
  · intro h
    rcases apply_spec (.ref handle) _ (writer_new io) with ⟨reply, hreply, _⟩
    refine ⟨reply, hreply, ?_⟩
    have hput : (Parcel.new io).putRef handle = some reply := hreply
    rw [h, Option.bind_some, if_pos hhandle, hput]
    rfl

/-- A registration that is accepted went through `addService`. -/
theorem registers_added {alloc : Allocator} {mem : Mapping} {txn : Txn} {reply : Parcel}
    {ref : BinderRef} {str : List UInt8} {svclist : List SvcInfo} {res : Handled (List SvcInfo)}
    (hreg : Registers mem txn ref str)
    (h : onTransact alloc txn (Parcel.bioInitFromTxn mem txn) reply svclist = some res)
    (haccepted : res.status = 0) : Added alloc str ref svclist 0 res.writes res.state := by
  rcases hreg.carried with ⟨msg, hpolicy, hread⟩
  rw [onTransact_adding hreg.target hreg.code hpolicy hread] at h
  simp only [Option.bind_eq_some_iff, Prod.exists] at h
  rcases h with ⟨status, writes, svclist', hadd, h⟩
  by_cases hstatus : status ≠ 0
  · -- What is turned down is turned down with a status of its own.
    rw [if_pos hstatus, Option.some.injEq] at h
    rw [← h] at haccepted
    have hminus : (-1 : Int32) ≠ 0 := by decide
    exact absurd haccepted hminus
  · rw [if_neg hstatus, Option.map_eq_some_iff] at h
    rcases h with ⟨reply', _, rfl⟩
    rw [not_not.mp hstatus] at hadd
    exact addService_cases hadd

theorem length_of_word {name : List UInt8} {len : UInt32} (hshort : name.length ≤ 127)
    (hlen : len = UInt32.ofNat name.length) : len.toNat = name.length := by
  rw [hlen]
  exact UInt32.toNat_ofNat_of_lt' (by change _ < 2 ^ 32; omega)

/-- The length and the bytes of a name tell its lookup key exactly if there is
    no zero in it. -/
theorem lookupKey_eq {name : List UInt8} {len : UInt32}
    (hlen : len = UInt32.ofNat name.length) : lookupKey name = (len, name) ↔ 0 ∉ name := by
  rw [lookupKey, Prod.mk.injEq, upToZero_eq]
  constructor
  · exact And.right
  · intro h
    rw [(upToZero_eq name).mpr h, hlen]
    exact ⟨rfl, h⟩

/-- The lookup of a name that was just registered. -/
theorem registered_answer {alloc alloc' : Allocator} {mem : Mapping} {txn : Txn} {io : IoData}
    {name rest rest' : List UInt8} {ref : BinderRef} {svclist svclist' : List SvcInfo}
    {writes : List RefCommand} (hs : Searchable svclist) (hs' : Searchable svclist')
    (hshort : name.length ≤ 127) (hlen : ref.len = UInt32.ofNat name.length)
    (hadd : Added alloc (name ++ 0 :: rest) ref svclist 0 writes svclist')
    (hlookup : LooksUp mem txn ref.len (name ++ 0 :: rest')) :
    Answered alloc' mem txn io svclist' ref.handle ↔
      0 ∉ name ∨ bindings svclist (lookupKey name) = some ref.handle := by
  have hnat := length_of_word hshort hlen
  rcases added_find hs (by omega) (by rw [List.length_append]; omega) hadd with
    ⟨e, _, hkey, hhandle, hne, hfind⟩
  rw [hnat, List.take_left] at hkey
  rw [answered_iff hlookup hne, getService_lookedUp, lookedUp_terminated hs' hshort, hfind, hkey,
    Option.map_some, Option.some.injEq]
  by_cases hzero : 0 ∉ name
  · rw [if_pos ((lookupKey_eq hlen).mpr hzero), Option.map_some, Option.getD_some]
    exact ⟨fun _ => Or.inl hzero, fun _ => hhandle⟩
  · -- Another key is looked up, and what that stands for is what it stood for before.
    rw [if_neg fun h => hzero ((lookupKey_eq hlen).mp h), or_iff_right hzero, bindings,
      Keyed.lookup]
    cases (svclist.find? fun si => si.key = lookupKey name).map SvcInfo.handle with
    | none =>
        rw [Option.getD_none]
        refine ⟨fun h => absurd h.symm hne, fun h => ?_⟩
        cases h
    | some handle => rw [Option.getD_some, Option.some.injEq]

/-- Which strings come upon the record that was just registered. -/
theorem registered_lookedUp {name str : List UInt8} {ref : BinderRef}
    {svclist svclist' : List SvcInfo} {e : SvcInfo}
    (hs' : Searchable svclist') (hshort : name.length ≤ 127)
    (hlen : ref.len = UInt32.ofNat name.length) (hkey : e.key = (ref.len, name))
    (hfind : ∀ k, (svclist'.find? fun si => si.key = k)
      = if k = e.key then some e else svclist.find? fun si => si.key = k)
    (haddressed : str.length < 2 ^ 32) :
    lookedUp str svclist' = some (some e) ↔ 0 ∉ name ∧ ∃ rest', str = name ++ 0 :: rest' := by
  have hnat := length_of_word hshort hlen
  constructor
  · intro h
    rw [lookedUp, Option.bind_eq_some_iff] at h
    rcases h with ⟨n, hstrlen, hsearch⟩
    rcases strlen_some hstrlen with ⟨hnone, rest', hrest⟩
    rcases findSvc_some hsearch with ⟨_, helen, hename⟩
    -- The length was counted, so it is a number of bytes there are.
    have hn : n ≤ str.length := by
      by_contra hlong
      rw [List.take_of_length_le (by omega)] at hrest
      have := congrArg List.length hrest
      rw [List.length_append, List.length_cons] at this
      omega
    have hcount : (UInt32.ofNat n).toNat = n :=
      UInt32.toNat_ofNat_of_lt' (by change _ < 2 ^ 32; omega)
    rcases Prod.mk.inj hkey with ⟨hkeylen, hkeyname⟩
    have hsame : n = name.length := by
      rw [← hcount, ← helen, hkeylen, hnat]
    rw [hcount] at hename
    rw [hkeylen, hnat, ← hsame, hename] at hkeyname
    rw [hkeyname] at hnone hrest
    exact ⟨hnone, rest', hrest⟩
  · rintro ⟨hzero, rest', rfl⟩
    rw [lookedUp_terminated hs' hshort, (lookupKey_eq hlen).mpr hzero, hfind, if_pos hkey.symm]

/-- In every state of every run, for every name of up to 127 bytes, whatever
    bytes they are: the lookup that carries the same length and bytes as a
    registration that was just accepted is answered with its handle if the name
    has no zero in it, or if what comes before the zero is bound to that handle
    too, and otherwise it is not; and a lookup that carries another length or
    other bytes comes upon the new record exactly when its bytes up to their
    first zero are the whole name. There are no more bytes than addresses. -/
theorem lookup_iff {inputs : List Input} {s : State} {alloc : Allocator} {mem : Mapping}
    {txn : Txn} {io : IoData} {name rest : List UInt8} {ref : BinderRef}
    {res : Handled (List SvcInfo)} (hrun : run step State.init inputs = some s)
    (hshort : name.length ≤ 127) (hlen : ref.len = UInt32.ofNat name.length)
    (hreg : Registers mem txn ref (name ++ 0 :: rest))
    (h : onTransact alloc txn (Parcel.bioInitFromTxn mem txn) (Parcel.new io) s.svclist = some res)
    (haccepted : res.status = 0) :
    (∀ alloc mem txn io rest, LooksUp mem txn ref.len (name ++ 0 :: rest) →
        (Answered alloc mem txn io res.state ref.handle ↔
          0 ∉ name ∨ bindings s.svclist (lookupKey name) = some ref.handle)) ∧
      ∃ e ∈ res.state, e.key = (ref.len, name) ∧ e.handle = ref.handle ∧
        ∀ mem txn len str, LooksUp mem txn len str → str.length < 2 ^ 32 →
          (len, str.take len.toNat) ≠ (ref.len, name) →
            (lookedUp str res.state ≠ some (some e) ↔
              ¬ (0 ∉ name ∧ ∃ rest, str = name ++ 0 :: rest)) := by
  have hs := run_searchable hrun
  have hs' := transacted_searchable hs (onTransact_cases h)
  have hadd := registers_added hreg h haccepted
  have hnat := length_of_word hshort hlen
  refine ⟨fun alloc mem txn io rest hlookup =>
    registered_answer hs hs' hshort hlen hadd hlookup, ?_⟩
  rcases added_find hs (by omega) (by rw [List.length_append]; omega) hadd with
    ⟨e, he, hkey, hhandle, _, hfind⟩
  rw [hnat, List.take_left] at hkey
  refine ⟨e, he, hkey, hhandle, fun mem txn len str _ haddressed _ => not_congr ?_⟩
  exact registered_lookedUp hs' hshort hlen hkey hfind haddressed

/-- The message of a registration, sent as a lookup. -/
def lookupTxn (name : List UInt8) : Txn := { registrationTxn name with code := svcMgrCheckService }

/-- The service `a`, registered on an empty list and looked up. -/
theorem lookup_iff_letter :
    ∃ res, onTransact blocks (registrationTxn [0x61, 0, 0, 0])
        (Parcel.bioInitFromTxn (registrationMemory 1 [0x61, 0, 0, 0] 5)
          (registrationTxn [0x61, 0, 0, 0])) (Parcel.new zeroIo) [] = some res ∧ res.status = 0 ∧
      Answered blocks (registrationMemory 1 [0x61, 0, 0, 0] 5) (lookupTxn [0x61, 0, 0, 0]) zeroIo
        res.state 5 := by
  have hstatus : (onTransact blocks (registrationTxn [0x61, 0, 0, 0])
      (Parcel.bioInitFromTxn (registrationMemory 1 [0x61, 0, 0, 0] 5)
        (registrationTxn [0x61, 0, 0, 0])) (Parcel.new zeroIo) []).map Handled.status
      = some 0 := by decide +kernel
  have hzero : (0 : UInt8) ∉ [0x61] := by decide
  rcases Option.map_eq_some_iff.mp hstatus with ⟨res, hres, haccepted⟩
  have hreg : Registers (registrationMemory 1 [0x61, 0, 0, 0] 5) (registrationTxn [0x61, 0, 0, 0])
      ⟨1, 0, 1, 0, 5⟩ ([0x61] ++ 0 :: (0 :: 0 :: Parcel.flatObject binderTypeHandle 5)) :=
    ⟨rfl, rfl, _, rfl, rfl⟩
  have hlookup : LooksUp (registrationMemory 1 [0x61, 0, 0, 0] 5) (lookupTxn [0x61, 0, 0, 0]) 1
      ([0x61] ++ 0 :: (0 :: 0 :: Parcel.flatObject binderTypeHandle 5)) :=
    ⟨rfl, Or.inr rfl, _, _, _, rfl, rfl, rfl⟩
  refine ⟨res, hres, haccepted, ?_⟩
  have hrun : run step State.init [] = some State.init := rfl
  exact ((lookup_iff hrun (by decide) rfl hreg hres haccepted).1 _ _ _ _ _ hlookup).mpr
    (Or.inl hzero)

/-- The three bytes of `a`, zero, `b`, registered on an empty list, are looked up
    as `a`. -/
theorem name_cut_short : ¬ ∀ (inputs : List Input) (s : State) (alloc : Allocator) (mem : Mapping)
    (txn txn' : Txn) (io : IoData) (name rest : List UInt8) (ref : BinderRef)
    (res : Handled (List SvcInfo)), run step State.init inputs = some s →
      1 ≤ name.length → name.length ≤ 127 → ref.len = UInt32.ofNat name.length →
        Registers mem txn ref (name ++ 0 :: rest) →
          onTransact alloc txn (Parcel.bioInitFromTxn mem txn) (Parcel.new io) s.svclist
              = some res →
            res.status = 0 → LooksUp mem txn' ref.len (name ++ 0 :: rest) →
              Answered alloc mem txn' io res.state ref.handle := by
  intro h
  have hstatus : (onTransact blocks (registrationTxn [0x61, 0, 0x62, 0])
      (Parcel.bioInitFromTxn (registrationMemory 3 [0x61, 0, 0x62, 0] 5)
        (registrationTxn [0x61, 0, 0x62, 0])) (Parcel.new zeroIo) []).map Handled.status
      = some 0 := by decide +kernel
  rcases Option.map_eq_some_iff.mp hstatus with ⟨res, hres, haccepted⟩
  have hreg : Registers (registrationMemory 3 [0x61, 0, 0x62, 0] 5)
      (registrationTxn [0x61, 0, 0x62, 0]) ⟨3, 0, 1, 0, 5⟩
      ([0x61, 0, 0x62] ++ 0 :: Parcel.flatObject binderTypeHandle 5) := ⟨rfl, rfl, _, rfl, rfl⟩
  have hlookup : LooksUp (registrationMemory 3 [0x61, 0, 0x62, 0] 5)
      (lookupTxn [0x61, 0, 0x62, 0]) 3
      ([0x61, 0, 0x62] ++ 0 :: Parcel.flatObject binderTypeHandle 5) :=
    ⟨rfl, Or.inr rfl, _, _, _, rfl, rfl, rfl⟩
  have hs' := transacted_searchable searchable_nil (onTransact_cases hres)
  have hadd := registers_added hreg hres haccepted
  have hanswer := h [] State.init _ _ _ _ _ _ _ _ res rfl (by decide) (by decide) rfl hreg hres
    haccepted hlookup
  rcases (registered_answer searchable_nil hs' (by decide) rfl hadd hlookup).mp hanswer with hzero | hbound
  · exact hzero (by decide)
  · -- Nothing is bound to `a`.
    cases hbound

end ServiceManager

end ZeusOS
