import ZeusOS.Foundation.Keyed
import ZeusOS.ServiceManager.Registry

/-!
# The List as a Map

What the service manager's list says about names. A record stands for its name
by the length and the bytes it stores; `find_svc` compares both, the length it
is called with coming from the message on registration and from `strlen` on
lookup. As long as every record stores as many bytes as its length says, the
search is the search for a key, and the list is a finite map from names to
handles in which zero stands for a name whose service has died.

The functions are total on such a list for a name that is terminated: nothing
is read past the name and nothing is written past the record.

## Main definitions

* `nameKey`: What a record for a name has to store.
* `Kept`: A list that can be searched.
* `bindings`: The map.

## Theorems

* `findSvc_eq`: The search is for the key.
* `getService_eq`: A lookup reads the map.
* `kept_update`, `kept_cons`: The two ways the list changes.
* `addService_invalid`, `addService_valid`: A registration of a name.
* `binderDeath_entry`: The death of an entry.
-/

namespace ZeusOS

namespace ServiceManager

open Foundation Foundation.Words Binder

/-- The key of a name's record. -/
def nameKey (name : CString) : UInt32 × List UInt8 :=
  (UInt32.ofNat name.chars.length, name.chars)

/-- A list whose records hold names, each one once, and in places of their
    own. -/
structure Kept (svclist : List SvcInfo) : Prop where
  short : ∀ si ∈ svclist, 1 ≤ si.len.toNat ∧ si.len.toNat ≤ 127
  stored : ∀ si ∈ svclist, si.len.toNat ≤ si.name.length
  distinct : Distinct svclist
  unique : (svclist.map SvcInfo.key).Nodup

/-- The handle a key's record is bound to. -/
def bindings (svclist : List SvcInfo) : UInt32 × List UInt8 → Option UInt32 :=
  Keyed.lookup SvcInfo.key SvcInfo.handle svclist

theorem kept_nil : Kept [] :=
  ⟨fun _ h => absurd h List.not_mem_nil, fun _ h => absurd h List.not_mem_nil, List.nodup_nil,
    List.nodup_nil⟩

theorem length_toNat (name : CString) :
    (UInt32.ofNat name.chars.length).toNat = name.chars.length :=
  UInt32.toNat_ofNat_of_lt' name.fits

/-- The search is for the key, if the records of the length that is asked for
    hold as many bytes. -/
theorem findSvc_eq {name : List UInt8} {len : UInt32} {svclist : List SvcInfo}
    (hstored : ∀ si ∈ svclist, si.len = len → si.len.toNat ≤ si.name.length)
    (hname : len.toNat ≤ name.length) :
    findSvc name len svclist
      = some (svclist.find? fun si => si.key = (len, name.take len.toNat)) := by
  induction svclist with
  | nil => rfl
  | cons e rest ih =>
      have hrest := ih fun si hsi => hstored si (List.mem_cons_of_mem _ hsi)
      rw [findSvc, List.find?_cons]
      -- Equal keys are equal lengths and equal bytes, which are compared in that order.
      by_cases hlen : len = e.len
      · have he : len.toNat ≤ e.name.length := by
          have := hstored e List.mem_cons_self hlen.symm
          rwa [← hlen] at this
        rw [if_pos hlen, memEq, if_pos ⟨hname, he⟩, Option.bind_some]
        by_cases hbytes : name.take len.toNat = e.name.take len.toNat
        · have hkey : e.key = (len, name.take len.toNat) := by
            rw [SvcInfo.key, ← hlen, hbytes]
          rw [if_pos (beq_iff_eq.mpr hbytes), decide_eq_true hkey]
        · have hkey : e.key ≠ (len, name.take len.toNat) := by
            intro heq
            rw [SvcInfo.key, ← hlen, Prod.mk.injEq] at heq
            exact hbytes heq.2.symm
          rw [if_neg fun h => hbytes (beq_iff_eq.mp h), decide_eq_false hkey, hrest]
      · have hkey : e.key ≠ (len, name.take len.toNat) := by
          intro heq
          exact hlen (Prod.mk.inj heq).1.symm
        rw [if_neg hlen, decide_eq_false hkey, hrest]

/-- A name in a message is found by its key. -/
theorem findSvc_name {svclist : List SvcInfo} (hkept : Kept svclist) (name : CString)
    (rest : List UInt8) :
    findSvc (name.chars ++ 0 :: rest) (UInt32.ofNat name.chars.length) svclist
      = some (svclist.find? fun si => si.key = nameKey name) := by
  -- The length is the name's, so the bytes compared are its characters.
  have htake : (name.chars ++ 0 :: rest).take (UInt32.ofNat name.chars.length).toNat
      = name.chars := by
    rw [length_toNat, List.take_left]
  rw [findSvc_eq (fun si hsi _ => hkept.stored si hsi)
    (by rw [length_toNat, List.length_append]; omega), htake]
  rfl

theorem strlen_terminated {chars : List UInt8} (hnonzero : ∀ c ∈ chars, c ≠ 0)
    (rest : List UInt8) : strlen (chars ++ 0 :: rest) = some chars.length := by
  induction chars with
  | nil => rfl
  | cons c chars ih =>
      rw [List.cons_append, strlen, if_neg (hnonzero c List.mem_cons_self),
        ih fun c hc => hnonzero c (List.mem_cons_of_mem _ hc)]
      rfl

/-- A lookup answers what the map says, and zero where it says nothing. -/
theorem getService_eq {svclist : List SvcInfo} (hkept : Kept svclist) (name : CString)
    (rest : List UInt8) :
    getService (name.chars ++ 0 :: rest) svclist
      = some ((bindings svclist (nameKey name)).getD 0) := by
  rw [getService, strlen_terminated name.nonzero, Option.bind_some, findSvc_name hkept]
  unfold bindings Keyed.lookup
  cases svclist.find? fun si => si.key = nameKey name with
  | none => rfl
  | some si =>
      simp only [Option.map_some, Option.getD_some]
      -- The test for zero and the zero for nothing come to the same.
      by_cases hhandle : si.handle ≠ 0
      · rw [if_pos hhandle]
      · rw [if_neg hhandle]
        rw [not_not] at hhandle
        rw [hhandle]

/-- Binding an entry changes what its own key stands for. -/
theorem bindings_update {svclist : List SvcInfo} (hkept : Kept svclist) {si : SvcInfo}
    (hmem : si ∈ svclist) (handle : UInt32) (k : UInt32 × List UInt8) :
    bindings (update svclist { si with handle }) k
      = if k = si.key then some handle else bindings svclist k := by
  -- The record that is stored back stands in for itself only.
  have hsame : ∀ e ∈ svclist, e.addr = si.addr → e = si :=
    fun e he haddr => List.inj_on_of_nodup_map hkept.distinct he hmem haddr
  unfold bindings update
  rw [Keyed.lookup_map hkept.unique hmem]
  · rw [if_pos rfl]
  · intro e he
    by_cases haddr : e.addr = si.addr
    · rw [if_pos haddr, hsame e he haddr]
      rfl
    · rw [if_neg haddr]
  · intro e he hkey
    refine if_neg fun haddr => hkey ?_
    rw [hsame e he haddr]

theorem kept_update {svclist : List SvcInfo} (hkept : Kept svclist) {si : SvcInfo}
    (hmem : si ∈ svclist) (handle : UInt32) : Kept (update svclist { si with handle }) := by
  -- Every record has the length and the bytes of one that was there.
  have hlike : ∀ e ∈ update svclist { si with handle }, ∃ e' ∈ svclist, e.len = e'.len ∧
      e.name = e'.name := by
    rw [update_handle hkept.distinct hmem]
    intro e he
    rcases List.mem_map.mp he with ⟨e', he', rfl⟩
    refine ⟨e', he', ?_⟩
    by_cases haddr : e'.addr = si.addr
    · rw [if_pos haddr]
      exact ⟨rfl, rfl⟩
    · rw [if_neg haddr]
      exact ⟨rfl, rfl⟩
  constructor
  · intro e he
    rcases hlike e he with ⟨e', he', hlen, _⟩
    rw [hlen]
    exact hkept.short e' he'
  · intro e he
    rcases hlike e he with ⟨e', he', hlen, hname⟩
    rw [hlen, hname]
    exact hkept.stored e' he'
  · exact distinct_update _ hkept.distinct
  · rw [update_key hkept.distinct hmem]
    exact hkept.unique

/-- The death of an entry that is there. -/
theorem binderDeath_entry {svclist : List SvcInfo} (hkept : Kept svclist) {si : SvcInfo}
    (hmem : si ∈ svclist) :
    ∃ writes, binderDeath si.cookie svclist
      = some (writes, update svclist { si with handle := 0 }) := by
  have hsome : (binderDeath si.cookie svclist).isSome = true := by
    rw [binderDeath, Option.isSome_map, List.find?_isSome]
    exact ⟨si, hmem, decide_eq_true rfl⟩
  rcases Option.isSome_iff_exists.mp hsome with ⟨⟨writes, svclist'⟩, hdeath⟩
  rcases binderDeath_cases hdeath with ⟨e, he, hcookie, _, rfl⟩
  -- A cookie is an address and a constant, so it is one record's only.
  have haddr : e.addr = si.addr := (UInt32.add_left_inj 8).mp hcookie
  rw [List.inj_on_of_nodup_map hkept.distinct he hmem haddr] at hdeath
  exact ⟨writes, hdeath⟩

/-- The length of a name as `addService` compares it. -/
theorem length_toInt (name : CString) (hlen : name.chars.length < 2 ^ 30) :
    toInt (UInt32.ofNat name.chars.length) = name.chars.length := by
  rw [toInt_of_lt _ (by rw [length_toNat]; omega), length_toNat]

/-- A registration with no name, or one that is too long, is turned down. -/
theorem addService_invalid (alloc : Allocator) (name : CString) (bytes : List UInt8)
    {ref : BinderRef} (svclist : List SvcInfo)
    (href : ref.len = UInt32.ofNat name.chars.length) (hlen : name.chars.length < 2 ^ 30)
    (hinvalid : ¬ (1 ≤ name.chars.length ∧ name.chars.length ≤ 127)) :
    addService alloc bytes ref svclist = some (-1, [], svclist) := by
  have hint := length_toInt name hlen
  rw [addService, href, hint, if_pos]
  exact Or.inr (by omega)

/-- The record of a name that is terminated is made without a fault. -/
theorem newSvc_name (addr : UInt32) (name : CString) (rest : List UInt8) {ref : BinderRef}
    (href : ref.len = UInt32.ofNat name.chars.length) (hlen : name.chars.length ≤ 127) :
    ∃ si, newSvc addr (name.chars ++ 0 :: rest) ref = some si := by
  have hnat : ref.len.toNat = name.chars.length := by
    rw [href, length_toNat]
  have hsucc := succ_toNat ref.len (by omega)
  have hroom := allocSize_room ref.len (by omega)
  rw [hnat] at hsucc hroom
  have hint : toInt ref.len = name.chars.length := by
    rw [href, length_toInt name (by omega)]
  -- The copy includes the terminator, which stands behind the name in the message.
  have hcopied : name.chars.length + 1 ≤ (name.chars ++ 0 :: rest).length := by
    rw [List.length_append, List.length_cons]
    omega
  rw [newSvc, copyName, hsucc, hroom, if_pos ⟨by simp only; omega, hcopied⟩, Option.bind_some,
    terminate, hint, if_pos (Int.natCast_nonneg _), Int.toNat_natCast, if_pos (by simp only; omega)]
  exact ⟨_, rfl⟩

/-- What the record of a name holds. -/
theorem newSvc_key {addr : UInt32} {name : CString} {rest : List UInt8} {ref : BinderRef}
    {si : SvcInfo} (hvalid : ¬ Invalid ref)
    (href : ref.len = UInt32.ofNat name.chars.length) (hlen : name.chars.length ≤ 127)
    (hnew : newSvc addr (name.chars ++ 0 :: rest) ref = some si) :
    si.addr = addr ∧ si.handle = ref.handle ∧ si.key = nameKey name ∧
      si.len.toNat = name.chars.length ∧ si.len.toNat ≤ si.name.length := by
  have hint : toInt ref.len = name.chars.length := by
    rw [href, length_toInt name (by omega)]
  have hnat : ref.len.toNat = name.chars.length := by
    rw [href, length_toNat]
  rcases newSvc_some hvalid hnew with ⟨haddr, hhandle, ⟨hminus, _⟩ | hfields⟩
  · -- A length of minus one is no name's.
    rw [hminus, show toInt 0xffffffff = -1 by decide] at hint
    omega
  · rcases hfields with ⟨_, _, hsilen, _, _, hsiname⟩
    rw [hnat, List.take_left] at hsiname
    refine ⟨haddr, hhandle, ?_, ?_, ?_⟩
    · rw [SvcInfo.key, hsilen, hsiname, hnat, List.take_left, href]
      rfl
    · rw [hsilen, hnat]
    · rw [hsilen, hnat, hsiname, List.length_append]
      omega

/-- A new record keeps the list in order if its name was not there. -/
theorem kept_cons {svclist : List SvcInfo} (hkept : Kept svclist) {si : SvcInfo}
    (haddr : si.addr ∉ svclist.map SvcInfo.addr) (hkey : ∀ e ∈ svclist, e.key ≠ si.key)
    (hlen : 1 ≤ si.len.toNat ∧ si.len.toNat ≤ 127) (hstored : si.len.toNat ≤ si.name.length) :
    Kept (si :: svclist) := by
  constructor
  · intro e he
    rcases List.mem_cons.mp he with rfl | he
    · exact hlen
    · exact hkept.short e he
  · intro e he
    rcases List.mem_cons.mp he with rfl | he
    · exact hstored
    · exact hkept.stored e he
  · exact distinct_cons hkept.distinct haddr
  · rw [List.map_cons, List.nodup_cons]
    refine ⟨fun hc => ?_, hkept.unique⟩
    rcases List.mem_map.mp hc with ⟨e, he, hekey⟩
    exact hkey e he hekey

/-- A registration of a name binds it, and nothing else changes. -/
theorem addService_valid (alloc : Allocator) {name : CString} (rest : List UInt8)
    {ref : BinderRef} {svclist : List SvcInfo} (hkept : Kept svclist)
    (href : ref.len = UInt32.ofNat name.chars.length) (hhandle : ref.handle ≠ 0)
    (hpos : 1 ≤ name.chars.length) (hshort : name.chars.length ≤ 127)
    (hmalloc : bindings svclist (nameKey name) = none →
      (alloc.malloc (svclist.map SvcInfo.addr) (allocSize ref.len)).isSome = true) :
    ∃ writes svclist', addService alloc (name.chars ++ 0 :: rest) ref svclist
        = some (0, writes, svclist') ∧ Kept svclist' ∧
      ∀ k, bindings svclist' k = if k = nameKey name then some ref.handle else bindings svclist k := by
  -- No conversion changes a length between 1 and 127.
  have hvalid : ¬ Invalid ref := by
    unfold Invalid
    rw [href, length_toInt name (by omega)]
    rintro (hzero | hzero | hlong)
    · exact hhandle hzero
    · omega
    · omega
  have hfind := findSvc_name hkept name rest
  rw [← href] at hfind
  cases hentry : svclist.find? fun si => si.key = nameKey name with
  | some si =>
      -- The entry is there, bound or dead, and takes the new handle where it is.
      rw [hentry] at hfind
      rcases Keyed.find_some hentry with ⟨hmem, hkey⟩
      refine ⟨_, _, addService_found alloc hvalid hfind, kept_update hkept hmem ref.handle,
        fun k => ?_⟩
      rw [bindings_update hkept hmem, hkey]
  | none =>
      -- The name is new, so a record is made for it and put in front.
      rw [hentry] at hfind
      have hnone : bindings svclist (nameKey name) = none := by
        rw [bindings, Keyed.lookup, hentry, Option.map_none]
      rcases Option.isSome_iff_exists.mp (hmalloc hnone) with ⟨addr, haddr⟩
      rcases newSvc_name addr name rest href hshort with ⟨si, hnew⟩
      rcases newSvc_key hvalid href hshort hnew with ⟨hsiaddr, hsihandle, hkey, hsilen, hstored⟩
      refine ⟨_, _, addService_new hvalid hfind haddr hnew,
        kept_cons hkept ?_ ?_ ?_ hstored, fun k => ?_⟩
      · rw [hsiaddr]
        exact alloc.fresh _ _ _ haddr
      · rw [hkey]
        exact Keyed.find_none.mp hentry
      · rw [hsilen]
        exact ⟨hpos, hshort⟩
      · rw [bindings, Keyed.lookup_cons, hkey, hsihandle]
        rfl

end ServiceManager

end ZeusOS
