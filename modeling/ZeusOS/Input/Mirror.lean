import Mathlib.Data.List.MinMax
import ZeusOS.Foundation.Runs
import ZeusOS.Input.Watching

/-!
# The List and the Kernel's Watches

Runs of the functions that add and delete directories, on a kernel that gives a
directory that is watched already the descriptor it has, and any other one a
descriptor that is not in use.

The list does not know about directories, it knows about paths and descriptors.
When a directory is added that is watched already, because it was added before
or lies in a tree that was, there are two entries with one descriptor. Deleting
either of them ends the watch, and the other stays in the list.

So the list is as it should be exactly as long as no call to add comes upon a
directory that is watched. Until then entries and watches are the same thing,
which is what `InStep` says, and a deletion leaves nothing behind.

## Main definitions

* `Kernel`, `kernelAdd`, `kernelRemove`: The kernel's watches.
* `WatchCall`, `callOn`, `step`: The calls, and the machine.
* `Mirrors`: Each watch has one entry, and each entry has a watch.
* `Gone`: Nothing is left of a directory.
* `Unwatched`: The directories a call to add comes upon are not watched.

## Theorems

* `inStep_mirrors`: What is in step mirrors.
* `inStep_add`, `inStep_del`: What keeps the list in step.
* `visited_doubled`: What does not.
* `mirrored_iff_unwatched`: When the list mirrors the watches.
-/

namespace ZeusOS

namespace Input

namespace InotifyDevice

open Foundation.Walks Foundation.Runs

variable {ι : Type}

/-- The active watches, a directory and a descriptor each, and every descriptor
    there has been, which may matter for what a new one is. -/
structure Kernel (ι : Type) where
  watches : List (ι × Nat)
  given : List Nat
  deriving DecidableEq

/-- `inotify_rm_watch`. -/
def kernelRemove (iWd : Int) (k : Kernel ι) : Kernel ι :=
  { k with watches := k.watches.filter fun watch => (watch.2 : Int) ≠ iWd }

/-- No directory is watched and the list is empty. -/
def nothing : Watcher (Kernel ι) := { kernel := { watches := [], given := [] }, directoryPathDescList := [], removed := [] }

/-- Each active descriptor has exactly one entry, and each entry's descriptor is
    active. -/
structure Mirrors (w : Watcher (Kernel ι)) : Prop where
  once : ∀ watch ∈ w.kernel.watches,
    (w.directoryPathDescList.countP fun desc => desc.iWd = (watch.2 : Int)) = 1
  active : ∀ desc ∈ w.directoryPathDescList, ∃ watch ∈ w.kernel.watches, (watch.2 : Int) = desc.iWd

section

variable (inode : Path → ι)

/-- No watch on the directory remains and no entry for it is left. -/
structure Gone (d : Path) (w : Watcher (Kernel ι)) : Prop where
  watches : ∀ watch ∈ w.kernel.watches, watch.1 ≠ inode d
  entries : ∀ desc ∈ w.directoryPathDescList, inode desc.directoryPath ≠ inode d

/-- The directories are different ones, and none of them is watched. -/
def Unwatched (vs : List Path) (k : Kernel ι) : Prop :=
  (vs.map inode).Nodup ∧ ∀ q ∈ vs, inode q ∉ k.watches.map Prod.fst

/-- Entries and watches are the same. -/
structure InStep (w : Watcher (Kernel ι)) : Prop where
  inodes : (w.kernel.watches.map Prod.fst).Nodup
  descriptors : (w.kernel.watches.map Prod.snd).Nodup
  entries : (w.directoryPathDescList.map fun desc => (inode desc.directoryPath, desc.iWd)).Perm
    (w.kernel.watches.map fun watch => (watch.1, (watch.2 : Int)))

variable {inode}

theorem inStep_nothing : InStep inode nothing :=
  { inodes := List.nodup_nil, descriptors := List.nodup_nil, entries := List.Perm.nil }

/-- The descriptors of the entries are those of the watches. -/
theorem inStep_descriptors {w : Watcher (Kernel ι)} (h : InStep inode w) :
    (w.directoryPathDescList.map DirectoryPathDesc.iWd).Perm
        (w.kernel.watches.map fun watch => (watch.2 : Int)) ∧
      (w.kernel.watches.map fun watch => (watch.2 : Int)).Nodup := by
  constructor
  · have hsnd := h.entries.map Prod.snd
    rwa [List.map_map, List.map_map] at hsnd
  · have hcast := List.Nodup.map (fun _ _ => Int.ofNat.inj) h.descriptors
    rwa [List.map_map] at hcast

theorem inStep_mirrors {w : Watcher (Kernel ι)} (h : InStep inode w) : Mirrors w := by
  rcases inStep_descriptors h with ⟨hperm, hnodup⟩
  constructor
  · intro watch hwatch
    have hmem : (watch.2 : Int) ∈ w.directoryPathDescList.map DirectoryPathDesc.iWd :=
      hperm.mem_iff.mpr (List.mem_map.mpr ⟨watch, hwatch, rfl⟩)
    have hcount := List.count_eq_one_of_mem (hperm.nodup_iff.mpr hnodup) hmem
    rw [List.count, List.countP_map] at hcount
    rw [← hcount]
    refine List.countP_congr fun desc _ => ?_
    rw [Function.comp_apply, beq_iff_eq, decide_eq_true_eq]
  · intro desc hdesc
    exact List.mem_map.mp (hperm.mem_iff.mp (List.mem_map.mpr ⟨desc, hdesc, rfl⟩))

/-- A new watch with its entry. -/
theorem inStep_add {w : Watcher (Kernel ι)} (h : InStep inode w) {q : Path} {n : Nat}
    {given : List Nat} (hq : inode q ∉ w.kernel.watches.map Prod.fst) (hn : n ∉ w.kernel.watches.map Prod.snd) :
    InStep inode { w with
      kernel := { watches := (inode q, n) :: w.kernel.watches, given }
      directoryPathDescList := w.directoryPathDescList ++ [⟨n, q⟩] } :=
  { inodes := List.nodup_cons.mpr ⟨hq, h.inodes⟩
    descriptors := List.nodup_cons.mpr ⟨hn, h.descriptors⟩
    entries := by
      rw [List.map_append, List.map_cons, List.map_cons, List.map_nil]
      exact List.perm_append_singleton _ _ |>.trans (h.entries.cons _) }

/-- The search and the deletion are about the same entry. -/
theorem eraseP_of_find? {α : Type} {es : List α} {P : α → Bool} {e : α} (h : es.find? P = some e) :
    P e = true ∧ ∃ before after, es = before ++ e :: after ∧ es.eraseP P = before ++ after := by
  rcases List.find?_eq_some_iff_append.mp h with ⟨hP, before, after, rfl, hbefore⟩
  have hpass : ∀ e ∈ before, ¬ P e = true := by
    intro e he hPe
    have hnot := hbefore e he
    rw [hPe] at hnot
    cases hnot
  refine ⟨hP, before, after, rfl, ?_⟩
  rw [List.eraseP_append_right _ hpass, List.eraseP_cons_of_pos hP]

/-- The search takes out the only entry with its descriptor. -/
theorem eraseP_eq_filter {es : List DirectoryPathDesc} (hnodup : (es.map DirectoryPathDesc.iWd).Nodup)
    {P : DirectoryPathDesc → Bool} {desc : DirectoryPathDesc} (h : es.find? P = some desc) :
    es.eraseP P = es.filter fun e => e.iWd ≠ desc.iWd := by
  rcases eraseP_of_find? h with ⟨_, before, after, rfl, herase⟩
  rw [List.map_append, List.map_cons, List.nodup_middle, List.nodup_cons, ← List.map_append] at hnodup
  -- Every other entry has another descriptor.
  have hother : ∀ e ∈ before ++ after, decide (e.iWd ≠ desc.iWd) = true := by
    intro e he
    refine decide_eq_true fun heq => hnodup.1 ?_
    exact List.mem_map.mpr ⟨e, he, heq⟩
  rw [herase, List.filter_append,
    List.filter_cons_of_neg (by simp only [ne_eq, not_true, decide_false, Bool.false_eq_true,
      not_false_iff]), ← List.filter_append, List.filter_eq_self.mpr hother]

/-- An entry that goes with its watch. -/
theorem inStep_del {w : Watcher (Kernel ι)} (h : InStep inode w) {d : Path} {desc : DirectoryPathDesc}
    (hfind : findPath d w = some desc) (removed : List Int) :
    InStep inode
        { kernel := kernelRemove desc.iWd w.kernel
          directoryPathDescList := w.directoryPathDescList.eraseP fun e => e.directoryPath = d
          removed := removed } := by
  rcases inStep_descriptors h with ⟨hperm, hnodup⟩
  refine { inodes := ?_, descriptors := ?_, entries := ?_ }
  · exact (List.filter_sublist.map Prod.fst).nodup h.inodes
  · exact (List.filter_sublist.map Prod.snd).nodup h.descriptors
  · show ((w.directoryPathDescList.eraseP _).map _).Perm _
    rw [eraseP_eq_filter (hperm.nodup_iff.mpr hnodup) hfind]
    have hfilter := h.entries.filter fun entry => decide (entry.2 ≠ desc.iWd)
    rwa [List.filter_map, List.filter_map] at hfilter

/-- And nothing is left of what was deleted. -/
theorem gone_of_inStep {w : Watcher (Kernel ι)} (h : InStep inode w) {d : Path}
    {desc : DirectoryPathDesc} (hfind : findPath d w = some desc) (removed : List Int) :
    Gone inode d
        { kernel := kernelRemove desc.iWd w.kernel
          directoryPathDescList := w.directoryPathDescList.eraseP fun e => e.directoryPath = d
          removed := removed } := by
  have hdesc := hfind
  rw [findPath] at hdesc
  have hd := List.find?_some hdesc
  simp only [decide_eq_true_eq] at hd
  -- The watch that the entry was for was the one on the directory.
  have hmem : (inode d, desc.iWd) ∈ w.kernel.watches.map fun watch => (watch.1, (watch.2 : Int)) := by
    refine h.entries.mem_iff.mp (List.mem_map.mpr ⟨desc, List.mem_of_find?_eq_some hdesc, ?_⟩)
    rw [hd]
  rcases List.mem_map.mp hmem with ⟨watch, hwatch, heq⟩
  rcases Prod.mk.inj heq with ⟨hinode, hiWd⟩
  have hwatches : ∀ other ∈ w.kernel.watches.filter fun watch => (watch.2 : Int) ≠ desc.iWd,
      other.1 ≠ inode d := by
    intro other hother hsame
    rcases List.mem_filter.mp hother with ⟨hin, hne⟩
    have hthis := List.inj_on_of_nodup_map h.inodes hin hwatch (hsame.trans hinode.symm)
    rw [hthis] at hne
    exact of_decide_eq_true hne hiWd
  refine { watches := hwatches, entries := fun e he hsame => ?_ }
  have hentry := (inStep_del h hfind removed).entries.mem_iff.mp (List.mem_map.mpr ⟨e, he, rfl⟩)
  rcases List.mem_map.mp hentry with ⟨other, hother, heq'⟩
  exact hwatches other hother ((Prod.mk.inj heq').1.trans hsame)

/-- What is unwatched stays so when something else is added. -/
theorem unwatched_cons {q : Path} {vs : List Path} {k : Kernel ι} {n : Nat} {given : List Nat}
    (hq : inode q ∉ k.watches.map Prod.fst) :
    Unwatched inode (q :: vs) k ↔ Unwatched inode vs { watches := (inode q, n) :: k.watches, given } := by
  unfold Unwatched
  simp only [List.map_cons, List.nodup_cons, List.mem_cons, List.mem_map, not_or, forall_eq_or_imp]
  constructor
  · rintro ⟨⟨hfirst, hnodup⟩, _, hrest⟩
    exact ⟨hnodup, fun p hp => ⟨fun heq => hfirst ⟨p, hp, heq⟩, hrest p hp⟩⟩
  · rintro ⟨hnodup, hrest⟩
    refine ⟨⟨?_, hnodup⟩, fun hmem => hq (List.mem_map.mpr hmem), fun p hp => (hrest p hp).2⟩
    rintro ⟨p, hp, heq⟩
    exact (hrest p hp).1 heq

end

/-- What `stat` and `opendir` say. -/
structure Files where
  stat : Path → Option FileType
  opendir : Path → Option (List Path)

/-- The calls, the recursive ones with what the file system is like at the time
    and with how deep they may go. -/
inductive WatchCall where
  | addWatchDirectory (directoryPath : Path)
  | delWatchDirectory (directoryPath : Path)
  | addWatchDirectory_R (fuel : Nat) (files : Files) (directoryPath : Path)
  | delWatchDirectory_R (fuel : Nat) (files : Files) (directoryPath : Path)

/-- A call that asks nothing of the file system. -/
def noFiles : Files := { stat := fun _ => none, opendir := fun _ => none }

/-- What a call does, on a kernel and some files. -/
def callOn {κ : Type} (sys : Files → System κ) (w : Watcher κ) :
    WatchCall → Option (Watcher κ)
  | .addWatchDirectory d => some (addWatchDirectory (sys noFiles) d w).2
  | .delWatchDirectory d => some (delWatchDirectory (sys noFiles) d w)
  | .addWatchDirectory_R fuel files d => (addWatchDirectory_R (sys files) fuel d w).map Prod.snd
  | .delWatchDirectory_R fuel files d => (delWatchDirectory_R (sys files) fuel d w).map Prod.snd

section

variable [DecidableEq ι] (inode : Path → ι) (fresh : Kernel ι → Nat)

/-- `inotify_add_watch` on a directory. -/
def kernelAdd (p : Path) (k : Kernel ι) : Int × Kernel ι :=
  match k.watches.find? fun watch => watch.1 = inode p with
  | some watch => (watch.2, k)
  | none => (fresh k, { watches := (inode p, fresh k) :: k.watches, given := fresh k :: k.given })

def kernelSystem (files : Files) : System (Kernel ι) :=
  { inotifyAddWatch := kernelAdd inode fresh
    inotifyRmWatch := kernelRemove
    stat := files.stat
    opendir := files.opendir }

/-- One call, in the state of the list and the kernel. -/
def step (w : Watcher (Kernel ι)) (call : WatchCall) : Option (Watcher (Kernel ι)) :=
  callOn (kernelSystem inode fresh) w call

/-- What is asked of every state: list and watches mirror each other, and a call
    that deletes a directory that is in the list leaves nothing of it. -/
structure Mirrored (w : Watcher (Kernel ι)) : Prop where
  mirrors : Mirrors w
  deletes : ∀ d, findPath d w ≠ none →
    (∀ w', step inode fresh w (.delWatchDirectory d) = some w' → Gone inode d w') ∧
    ∀ fuel files w', step inode fresh w (.delWatchDirectory_R fuel files d) = some w' →
      Gone inode d w'

/-- The directories a call to add comes upon: those it is called for, and with
    the recursive one those in them. -/
def WatchCall.comesUpon : WatchCall → Option (List Path)
  | .addWatchDirectory d => some [d]
  | .addWatchDirectory_R fuel files d =>
    preorder (subdirs (kernelSystem inode fresh files)) fuel d
  | .delWatchDirectory _ | .delWatchDirectory_R _ _ _ => none

variable {inode}

-- The kernel gives a directory that is watched the descriptor it has.
theorem kernelAdd_watched {q : Path} {k : Kernel ι} (h : inode q ∈ k.watches.map Prod.fst) :
    ∃ watch ∈ k.watches, kernelAdd inode fresh q k = ((watch.2 : Int), k) := by
  rcases List.mem_map.mp h with ⟨watch, hmem, hinode⟩
  unfold kernelAdd
  cases hfind : k.watches.find? fun watch => watch.1 = inode q with
  | some found => exact ⟨found, List.mem_of_find?_eq_some hfind, rfl⟩
  | none =>
      refine absurd ?_ (List.find?_eq_none.mp hfind watch hmem)
      exact decide_eq_true hinode

theorem kernelAdd_unwatched {q : Path} {k : Kernel ι} (h : inode q ∉ k.watches.map Prod.fst) :
    kernelAdd inode fresh q k = ((fresh k : Int),
      { watches := (inode q, fresh k) :: k.watches, given := fresh k :: k.given }) := by
  have hfind : k.watches.find? (fun watch => watch.1 = inode q) = none := by
    refine List.find?_eq_none.mpr fun watch hmem heq => h ?_
    exact List.mem_map.mpr ⟨watch, hmem, of_decide_eq_true heq⟩
  rw [kernelAdd, hfind]

/-- Adding a directory never fails. -/
theorem visitAdd_kernel (files : Files) (q : Path) (w : Watcher (Kernel ι)) :
    visitAdd (kernelSystem inode fresh files) q w
      = ({ w with
          kernel := (kernelAdd inode fresh q w.kernel).2
          directoryPathDescList :=
            w.directoryPathDescList ++ [⟨(kernelAdd inode fresh q w.kernel).1, q⟩] },
        subdirs (kernelSystem inode fresh files) q) := by
  have hfine : ¬ (kernelAdd inode fresh q w.kernel).1 < 0 := by
    by_cases hwatched : inode q ∈ w.kernel.watches.map Prod.fst
    · rcases kernelAdd_watched fresh hwatched with ⟨watch, _, heq⟩
      rw [heq]
      omega
    · rw [kernelAdd_unwatched fresh hwatched]
      omega
  rw [visitAdd, (addWatchDirectory_spec (kernelSystem inode fresh files) q w).2 hfine,
    if_neg (show (0 : Int32) ≠ -1 by decide)]
  rfl

/-- So the recursive call ends if there is an end to what it comes upon, and
    what it does is to add that. -/
theorem step_addWatchDirectory_R (fuel : Nat) (files : Files) (d : Path) (w : Watcher (Kernel ι)) :
    step inode fresh w (.addWatchDirectory_R fuel files d)
      = (preorder (subdirs (kernelSystem inode fresh files)) fuel d).map fun vs =>
        visited (visitAdd (kernelSystem inode fresh files)) vs w := by
  rw [step, callOn, addWatchDirectory_R_walk]
  refine walk_eq_preorder (fun q w => ?_) fuel d w
  rw [visitAdd_kernel]

theorem step_add {call : WatchCall} {vs : List Path}
    (hvs : call.comesUpon inode fresh = some vs) (w : Watcher (Kernel ι)) :
    ∃ files, step inode fresh w call
      = some (visited (visitAdd (kernelSystem inode fresh files)) vs w) := by
  cases call with
  | addWatchDirectory d =>
      cases hvs
      exact ⟨noFiles, rfl⟩
  | addWatchDirectory_R fuel files d =>
      rw [WatchCall.comesUpon] at hvs
      exact ⟨files, by rw [step_addWatchDirectory_R, hvs, Option.map_some]⟩
  | delWatchDirectory d => cases hvs
  | delWatchDirectory_R fuel files d => cases hvs

/-- Two entries for one watch. -/
def Doubled (w : Watcher (Kernel ι)) : Prop :=
  ∃ watch ∈ w.kernel.watches, 2 ≤ w.directoryPathDescList.countP fun desc => desc.iWd = (watch.2 : Int)

theorem doubled_visitAdd (files : Files) (q : Path) {w : Watcher (Kernel ι)} (h : Doubled w) :
    Doubled (visitAdd (kernelSystem inode fresh files) q w).1 := by
  rcases h with ⟨watch, hwatch, htwo⟩
  rw [visitAdd_kernel]
  refine ⟨watch, ?_, ?_⟩
  · by_cases hwatched : inode q ∈ w.kernel.watches.map Prod.fst
    · rcases kernelAdd_watched fresh hwatched with ⟨_, _, heq⟩
      rwa [heq]
    · rw [kernelAdd_unwatched fresh hwatched]
      exact List.mem_cons_of_mem _ hwatch
  · rw [List.countP_append]
    omega

/-- A directory that is watched gets a second entry. -/
theorem doubled_of_watched (files : Files) {q : Path} {w : Watcher (Kernel ι)} (h : InStep inode w)
    (hq : inode q ∈ w.kernel.watches.map Prod.fst) :
    Doubled (visitAdd (kernelSystem inode fresh files) q w).1 := by
  rcases kernelAdd_watched fresh hq with ⟨watch, hwatch, heq⟩
  rw [visitAdd_kernel, heq]
  refine ⟨watch, hwatch, ?_⟩
  have hone := (inStep_mirrors h).once watch hwatch
  rw [List.countP_append, hone, List.countP_singleton, if_pos (decide_eq_true rfl)]

theorem inStep_visitAdd (hfresh : ∀ k : Kernel ι, fresh k ∉ k.watches.map Prod.snd) (files : Files) {q : Path}
    {w : Watcher (Kernel ι)} (h : InStep inode w) (hq : inode q ∉ w.kernel.watches.map Prod.fst) :
    InStep inode (visitAdd (kernelSystem inode fresh files) q w).1 ∧
      (visitAdd (kernelSystem inode fresh files) q w).1.kernel
        = { watches := (inode q, fresh w.kernel) :: w.kernel.watches
            given := fresh w.kernel :: w.kernel.given } := by
  rw [visitAdd_kernel, kernelAdd_unwatched fresh hq]
  exact ⟨inStep_add h hq (hfresh w.kernel), rfl⟩

/-- What is added keeps the list in step if nothing of it is watched, -/
theorem visited_inStep (hfresh : ∀ k : Kernel ι, fresh k ∉ k.watches.map Prod.snd) (files : Files)
    {vs : List Path} {w : Watcher (Kernel ι)} (h : InStep inode w) (hvs : Unwatched inode vs w.kernel) :
    InStep inode (visited (visitAdd (kernelSystem inode fresh files)) vs w) := by
  induction vs generalizing w with
  | nil => exact h
  | cons q vs ih =>
      have hq := hvs.2 q List.mem_cons_self
      rcases inStep_visitAdd fresh hfresh files h hq with ⟨hnext, hkernel⟩
      refine ih hnext ?_
      rw [hkernel]
      exact (unwatched_cons hq).mp hvs

/-- and leaves some watch with two entries if anything of it is. -/
theorem visited_doubled (hfresh : ∀ k : Kernel ι, fresh k ∉ k.watches.map Prod.snd) (files : Files)
    {vs : List Path} {w : Watcher (Kernel ι)} (h : InStep inode w)
    (hvs : ¬ Unwatched inode vs w.kernel) :
    Doubled (visited (visitAdd (kernelSystem inode fresh files)) vs w) := by
  induction vs generalizing w with
  | nil => exact absurd ⟨List.nodup_nil, fun _ hq => absurd hq List.not_mem_nil⟩ hvs
  | cons q vs ih =>
      by_cases hq : inode q ∈ w.kernel.watches.map Prod.fst
      · -- What comes after does not take the second entry away.
        refine visited_keeps (fun p w hw => doubled_visitAdd fresh files p hw) vs ?_
        exact doubled_of_watched fresh files h hq
      · rcases inStep_visitAdd fresh hfresh files h hq with ⟨hnext, hkernel⟩
        refine ih hnext fun hrest => hvs ?_
        rw [hkernel] at hrest
        exact (unwatched_cons hq).mpr hrest

theorem inStep_visitDel (files : Files) (q : Path) {w : Watcher (Kernel ι)} (h : InStep inode w) :
    InStep inode (visitDel (kernelSystem inode fresh files) q w).1 := by
  unfold visitDel delWatchDirectory
  cases hfind : findPath q w with
  | none => exact h
  | some desc => exact inStep_del h hfind _

/-- What is gone stays so. -/
theorem gone_visitDel (files : Files) {d : Path} (q : Path) {w : Watcher (Kernel ι)}
    (h : Gone inode d w) : Gone inode d (visitDel (kernelSystem inode fresh files) q w).1 := by
  unfold visitDel delWatchDirectory
  cases hfind : findPath q w with
  | none => exact h
  | some desc =>
      exact { watches := fun watch hwatch => h.watches watch (List.mem_of_mem_filter hwatch)
              entries := fun e he => h.entries e (List.mem_of_mem_eraseP he) }

theorem gone_of_found (files : Files) {d : Path} {w : Watcher (Kernel ι)} (h : InStep inode w)
    (hfind : findPath d w ≠ none) :
    Gone inode d (visitDel (kernelSystem inode fresh files) d w).1 := by
  unfold visitDel delWatchDirectory
  cases hfound : findPath d w with
  | none => exact absurd hfound hfind
  | some desc => exact gone_of_inStep h hfound _

/-- So in step everything is as it should be. -/
theorem inStep_mirrored {w : Watcher (Kernel ι)} (h : InStep inode w) : Mirrored inode fresh w := by
  refine { mirrors := inStep_mirrors h, deletes := fun d hfind => ⟨?_, ?_⟩ }
  · intro w' hstep
    rw [step, callOn, Option.some.injEq] at hstep
    rw [← hstep]
    exact gone_of_found fresh noFiles h hfind
  · intro fuel files w' hstep
    rw [step, callOn, delWatchDirectory_R_walk] at hstep
    exact walk_keeps (fun q w hw => gone_visitDel fresh files q hw) hstep
      (gone_of_found fresh files h hfind)

/-- One call. -/
theorem inStep_step (hfresh : ∀ k : Kernel ι, fresh k ∉ k.watches.map Prod.snd) {w w' : Watcher (Kernel ι)}
    {call : WatchCall} (h : InStep inode w)
    (hcall : ∀ vs, call.comesUpon inode fresh = some vs → Unwatched inode vs w.kernel)
    (hstep : step inode fresh w call = some w') : InStep inode w' := by
  cases hvs : call.comesUpon inode fresh with
  | some vs =>
      rcases step_add fresh hvs w with ⟨files, hadd⟩
      rw [hadd, Option.some.injEq] at hstep
      rw [← hstep]
      exact visited_inStep fresh hfresh files h (hcall vs hvs)
  | none =>
      cases call with
      | addWatchDirectory d => cases hvs
      | delWatchDirectory d =>
          rw [step, callOn, Option.some.injEq] at hstep
          rw [← hstep]
          exact inStep_visitDel fresh noFiles d h
      | addWatchDirectory_R fuel files d =>
          rw [WatchCall.comesUpon] at hvs
          rw [step_addWatchDirectory_R, hvs] at hstep
          cases hstep
      | delWatchDirectory_R fuel files d =>
          rw [step, callOn, delWatchDirectory_R_walk] at hstep
          exact walk_keeps (fun q w hw => inStep_visitDel fresh files q hw) hstep
            (inStep_visitDel fresh files d h)

/-- The list mirrors the watches in every state of a run, and deleting a
    directory leaves nothing of it, if and only if no call to add comes upon a
    directory that is watched or comes upon one twice. -/
theorem mirrored_iff_unwatched (hfresh : ∀ k : Kernel ι, fresh k ∉ k.watches.map Prod.snd)
    (calls : List WatchCall) :
    Always (step inode fresh) (Mirrored inode fresh) nothing calls ↔
      Along (step inode fresh)
        (fun w call => ∀ vs, call.comesUpon inode fresh = some vs → Unwatched inode vs w.kernel)
        nothing calls := by
  refine always_iff_along_of _ (InStep inode) _ _ (fun w h => inStep_mirrored fresh h)
    (fun w call w' h hcall hstep => inStep_step fresh hfresh h hcall hstep) ?_ nothing calls
    inStep_nothing
  intro w call h hcall
  rcases not_forall.mp hcall with ⟨vs, hvs⟩
  rcases Classical.not_imp.mp hvs with ⟨hcomes, hwatched⟩
  rcases step_add fresh hcomes w with ⟨files, hadd⟩
  refine ⟨_, hadd, fun hmirrored => ?_⟩
  rcases visited_doubled fresh hfresh files h hwatched with ⟨watch, hwatch, htwo⟩
  have hone := hmirrored.mirrors.once watch hwatch
  omega

end

/-- Descriptors are given one after another. -/
def latest (k : Kernel ι) : Nat := (k.given ++ k.watches.map Prod.snd).foldr max 0 + 1

theorem latest_fresh (k : Kernel ι) : latest k ∉ k.watches.map Prod.snd := by
  intro hmem
  have hle := List.le_max_of_le' 0 (List.mem_append_right k.given hmem) (Nat.le_refl (latest k))
  unfold latest at hle
  omega

/-- A directory that is added, deleted and added again. -/
theorem mirrored_iff_unwatched_again :
    Always (step id latest) (Mirrored id latest) nothing
      [.addWatchDirectory [slash, 0x61], .delWatchDirectory [slash, 0x61],
        .addWatchDirectory [slash, 0x61]] := by
  refine (mirrored_iff_unwatched latest latest_fresh _).mpr ?_
  simp only [along_cons]
  refine ⟨?_, fun w hw => ⟨?_, fun w' hw' => ⟨?_, fun _ _ => along_nil _ _ _⟩⟩⟩
  · rintro vs ⟨⟩
    exact ⟨List.nodup_singleton _, fun _ _ => List.not_mem_nil⟩
  · rintro vs ⟨⟩
  · cases hw
    cases hw'
    rintro vs ⟨⟩
    exact ⟨List.nodup_singleton _, fun _ _ => List.not_mem_nil⟩

/-- What `twoDirs` says. -/
def twoFiles : Files := { stat := (counting twoDirs).stat, opendir := (counting twoDirs).opendir }

/-- A tree is watched, and then a directory in it. The directory has two entries
    with one descriptor. When it is deleted the watch ends, and the entry that is
    left has none. -/
theorem tree_unmirrored :
    ¬ Always (step id latest) (Mirrored id latest) nothing
      [.addWatchDirectory_R 2 twoFiles [slash, 0x61], .addWatchDirectory [slash, 0x61, slash, 0x62],
        .delWatchDirectory [slash, 0x61, slash, 0x62]] ∧
    ∃ w, run (step id latest) nothing
        [.addWatchDirectory_R 2 twoFiles [slash, 0x61],
          .addWatchDirectory [slash, 0x61, slash, 0x62],
          .delWatchDirectory [slash, 0x61, slash, 0x62]] = some w ∧
      w.directoryPathDescList
        = [⟨1, [slash, 0x61]⟩, ⟨2, [slash, 0x61, slash, 0x62]⟩] ∧
      w.kernel.watches = [([slash, 0x61], 1)] := by
  have hrun : run (step id latest) nothing
      [.addWatchDirectory_R 2 twoFiles [slash, 0x61], .addWatchDirectory [slash, 0x61, slash, 0x62],
        .delWatchDirectory [slash, 0x61, slash, 0x62]]
      = some
        { kernel := { watches := [([slash, 0x61], 1)], given := [2, 1] }
          directoryPathDescList := [⟨1, [slash, 0x61]⟩, ⟨2, [slash, 0x61, slash, 0x62]⟩]
          removed := [2] } := by
    decide +kernel
  refine ⟨fun halways => ?_, _, hrun, rfl, rfl⟩
  have hmirrored := halways _ [] _ (List.append_nil _).symm hrun
  rcases hmirrored.mirrors.active _ (List.mem_cons_of_mem _ List.mem_cons_self)
    with ⟨watch, hwatch, hactive⟩
  rw [List.mem_singleton] at hwatch
  rw [hwatch] at hactive
  cases hactive

end InotifyDevice

end Input

end ZeusOS
