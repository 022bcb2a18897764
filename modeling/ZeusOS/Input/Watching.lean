import ZeusOS.Foundation.Walks
import ZeusOS.Input.FileTree

/-!
# Watching a Tree

What `addWatchDirectory_R` and `delWatchDirectory_R` do to the list.

Both are walks that go from a directory to the directories in it, by the paths
that fit into a buffer of 256 bytes. As long as every path fits, the walk is
that of the tree. One that does not fit is cut off, and if what is left of it is
the path of some directory, the walk goes there: to a directory it has been to,
or will be, or has no business in. From a path of 254 characters it goes to the
same path with a slash behind, and from there to itself.

A walk that adds goes where the tree goes; it leaves an entry wherever it could
set a watch. A walk that deletes goes on only where it has found an entry, and
so it ends whatever the file system is like.

## Main definitions

* `subdirs`, `realSubdirs`: Where a walk goes, and where it should.
* `visitAdd`, `visitDel`: What happens at a directory.
* `Covers`: One entry for every directory.
* `Fits`: No path is cut off that matters.

## Theorems

* `addWatchDirectory_R_walk`, `delWatchDirectory_R_walk`: The two walks.
* `covers_iff_fits`: When every directory gets its entry.
* `del_undoes_add`: What is added is deleted, and deleting ends.
-/

namespace ZeusOS

namespace Input

namespace InotifyDevice

open Foundation.Walks

variable {κ : Type} {sys : System κ}

/-- The directories in a directory, by paths made in some way. -/
def dirsBy (sys : System κ) (path : Path → Path → Path) (q : Path) : List Path :=
  match sys.opendir q with
  | none => []
  | some files => ((files.filter fun file => !hidden file).map (path q)).filter sys.isDir

/-- Where the loop goes. -/
def subdirs (sys : System κ) : Path → List Path := dirsBy sys printPath

/-- The directories there are. -/
def realSubdirs (sys : System κ) : Path → List Path := dirsBy sys below

/-- What happens at a directory before its entries are looked at, and where it
    goes on. -/
def visitAdd (sys : System κ) (q : Path) (w : Watcher κ) : Watcher κ × List Path :=
  ((addWatchDirectory sys q w).2,
    if (addWatchDirectory sys q w).1 = -1 then [] else subdirs sys q)

def visitDel (sys : System κ) (q : Path) (w : Watcher κ) : Watcher κ × List Path :=
  (delWatchDirectory sys q w, if findPath q w = none then [] else subdirs sys q)

theorem eachDirectory_foldlM (recurse : Path → Watcher κ → Option (Watcher κ)) (q : Path)
    (files : List Path) (w : Watcher κ) :
    eachDirectory sys recurse q files w
      = (((files.filter fun file => !hidden file).map (printPath q)).filter sys.isDir).foldlM
        (fun w p => recurse p w) w := by
  induction files generalizing w with
  | nil => rfl
  | cons file files ih =>
      rw [eachDirectory]
      cases hhidden : hidden file with
      | true =>
          rw [if_pos rfl, List.filter_cons_of_neg (by rw [hhidden]; exact Bool.false_ne_true)]
          exact ih w
      | false =>
          rw [if_neg Bool.false_ne_true, List.filter_cons_of_pos (by rw [hhidden]; rfl), List.map_cons]
          cases hdir : sys.isDir (printPath q file) with
          | true =>
              simp only [hdir, if_true]
              rw [List.filter_cons_of_pos hdir, List.foldlM_cons]
              cases recurse (printPath q file) w with
              | none => rfl
              | some w' => exact ih w'
          | false =>
              simp only [hdir, Bool.false_eq_true, if_false]
              rw [List.filter_cons_of_neg (by rw [hdir]; exact Bool.false_ne_true)]
              exact ih w

/-- What both recursive functions do after they have changed the list. -/
theorem opened_foldlM (recurse : Path → Watcher κ → Option (Watcher κ)) (q : Path) (w : Watcher κ) :
    (match sys.opendir q with
      | none => some ((-1 : Int32), w)
      | some files => (eachDirectory sys recurse q files w).map fun w => (0, w)).map Prod.snd
      = (subdirs sys q).foldlM (fun w p => recurse p w) w := by
  unfold subdirs dirsBy
  cases sys.opendir q with
  | none => rfl
  | some files =>
      simp only [Option.map_map, Function.comp_def, Option.map_id']
      exact eachDirectory_foldlM _ q files _

theorem addWatchDirectory_R_walk (fuel : Nat) (q : Path) (w : Watcher κ) :
    (addWatchDirectory_R sys fuel q w).map Prod.snd = walk (visitAdd sys) fuel q w := by
  induction fuel generalizing q w with
  | zero => rfl
  | succ fuel ih =>
      have hrecurse : (fun strTmp w => (addWatchDirectory_R sys fuel strTmp w).map Prod.snd)
          = fun strTmp w => walk (visitAdd sys) fuel strTmp w :=
        funext fun p => funext fun w => ih p w
      rw [addWatchDirectory_R, walk, visitAdd, hrecurse]
      by_cases hfailed : (addWatchDirectory sys q w).1 = -1
      · simp only [if_pos hfailed, Option.map_some]
        rfl
      · simp only [if_neg hfailed]
        exact opened_foldlM _ q _

theorem delWatchDirectory_R_walk (fuel : Nat) (q : Path) (w : Watcher κ) :
    (delWatchDirectory_R sys fuel q w).map Prod.snd = walk (visitDel sys) fuel q w := by
  induction fuel generalizing q w with
  | zero => rfl
  | succ fuel ih =>
      have hrecurse : (fun strTmp w => (delWatchDirectory_R sys fuel strTmp w).map Prod.snd)
          = fun strTmp w => walk (visitDel sys) fuel strTmp w :=
        funext fun p => funext fun w => ih p w
      rw [delWatchDirectory_R, walk, visitDel, hrecurse]
      by_cases hmissing : findPath q w = none
      · have hsame : delWatchDirectory sys q w = w := by
          rw [delWatchDirectory, hmissing]
        simp only [if_pos hmissing, Option.map_some, hsame]
        rfl
      · simp only [if_neg hmissing]
        exact opened_foldlM _ q _

/-- What the kernel accepts is entered at the end of the list, what it does not
    accept changes nothing there. -/
theorem addWatchDirectory_spec (sys : System κ) (q : Path) (w : Watcher κ) :
    ((sys.inotifyAddWatch q w.kernel).1 < 0 → addWatchDirectory sys q w
      = (-1, { w with kernel := (sys.inotifyAddWatch q w.kernel).2 })) ∧
    (¬ (sys.inotifyAddWatch q w.kernel).1 < 0 → addWatchDirectory sys q w
      = (0, { w with
        kernel := (sys.inotifyAddWatch q w.kernel).2
        directoryPathDescList :=
          w.directoryPathDescList ++ [⟨(sys.inotifyAddWatch q w.kernel).1, q⟩] })) := by
  unfold addWatchDirectory
  exact ⟨fun h => if_pos h, fun h => if_neg h⟩

/-- If it depends on the directory alone what the kernel accepts, the entries
    after some visits are those of the directories it accepts. -/
theorem visited_visitAdd {fails : Path → Bool} {vs : List Path}
    (hfails : ∀ q ∈ vs, ∀ k, (sys.inotifyAddWatch q k).1 < 0 ↔ fails q = true) (w : Watcher κ) :
    ∃ es, (visited (visitAdd sys) vs w).directoryPathDescList = w.directoryPathDescList ++ es ∧
      es.map DirectoryPathDesc.directoryPath = vs.filter (fun q => !fails q) ∧
      (visited (visitAdd sys) vs w).removed = w.removed := by
  induction vs generalizing w with
  | nil => exact ⟨[], (List.append_nil _).symm, rfl, rfl⟩
  | cons q vs ih =>
      rcases ih (fun p hp => hfails p (List.mem_cons_of_mem _ hp)) (visitAdd sys q w).1
        with ⟨es, hlist, hpaths, hremoved⟩
      rcases addWatchDirectory_spec sys q w with ⟨hrefused, haccepted⟩
      have hnext : visited (visitAdd sys) (q :: vs) w = visited (visitAdd sys) vs (visitAdd sys q w).1 :=
        rfl
      have hq := hfails q List.mem_cons_self w.kernel
      rw [hnext]
      by_cases hneg : (sys.inotifyAddWatch q w.kernel).1 < 0
      · have hstate : (visitAdd sys q w).1
            = { w with kernel := (sys.inotifyAddWatch q w.kernel).2 } := by
          rw [visitAdd, hrefused hneg]
        rw [hstate] at hlist hremoved ⊢
        refine ⟨es, hlist, ?_, hremoved⟩
        rw [hpaths, List.filter_cons_of_neg (by rw [hq.mp hneg]; exact Bool.false_ne_true)]
      · have hstate : (visitAdd sys q w).1
            = { w with
              kernel := (sys.inotifyAddWatch q w.kernel).2
              directoryPathDescList :=
                w.directoryPathDescList ++ [⟨(sys.inotifyAddWatch q w.kernel).1, q⟩] } := by
          rw [visitAdd, haccepted hneg]
        have hfine : fails q = false := Bool.eq_false_iff.mpr fun h => hneg (hq.mpr h)
        rw [hstate] at hlist hremoved ⊢
        refine ⟨⟨(sys.inotifyAddWatch q w.kernel).1, q⟩ :: es, ?_, ?_, hremoved⟩
        · rw [hlist, List.append_assoc, List.singleton_append]
        · rw [List.map_cons, hpaths, List.filter_cons_of_pos (by rw [hfine]; rfl)]

theorem mem_dirsBy {path : Path → Path → Path} {q p : Path} :
    p ∈ dirsBy sys path q ↔ ∃ files file, sys.opendir q = some files ∧ file ∈ files ∧
      hidden file = false ∧ path q file = p ∧ sys.isDir p = true := by
  unfold dirsBy
  cases sys.opendir q with
  | none => simp only [List.not_mem_nil, reduceCtorEq, false_and, exists_false]
  | some files =>
      simp only [List.mem_filter, List.mem_map, Bool.not_eq_eq_eq_not, Bool.not_true,
        Option.some.injEq, exists_and_left, exists_eq_left']
      constructor
      · rintro ⟨⟨file, ⟨hfile, hvisible⟩, rfl⟩, hdir⟩
        exact ⟨file, hfile, hvisible, rfl, hdir⟩
      · rintro ⟨file, hfile, hvisible, rfl, hdir⟩
        exact ⟨⟨file, ⟨hfile, hvisible⟩, rfl⟩, hdir⟩

theorem below_length (q file : Path) : q.length < (below q file).length := by
  rw [below, List.length_append, List.length_cons]
  omega

theorem printPath_length (q file : Path) : (printPath q file).length ≤ 255 :=
  List.length_take_le _ _

/-- What fits is not cut off. -/
theorem printPath_eq {q file : Path} (h : (below q file).length ≤ 255) :
    printPath q file = below q file := List.take_of_length_le h

/-- The path of a directory further down goes on behind a slash. -/
theorem leads_append {y z : Path} (h : Leads (realSubdirs sys) y z) :
    ∃ rest, z = y ++ rest ∧ (rest = [] ∨ rest.head? = some slash) := by
  induction h with
  | refl => exact ⟨[], (List.append_nil y).symm, Or.inl rfl⟩
  | tail _ hchild ih =>
      rcases ih with ⟨rest, rfl, hrest⟩
      rcases mem_dirsBy.mp hchild with ⟨_, file, _, _, _, rfl, _⟩
      refine ⟨rest ++ slash :: file, List.append_assoc _ _ _, Or.inr ?_⟩
      rcases hrest with rfl | hhead
      · rfl
      · rw [List.head?_append, hhead]
        rfl

/-- So a name without a slash can be told from what follows. -/
theorem name_eq {file file' rest rest' : Path} (hfile : slash ∉ file) (hfile' : slash ∉ file')
    (hrest : rest = [] ∨ rest.head? = some slash) (hrest' : rest' = [] ∨ rest'.head? = some slash)
    (h : file ++ rest = file' ++ rest') : file = file' := by
  have hcut : ∀ {file rest : Path}, slash ∉ file → (rest = [] ∨ rest.head? = some slash) →
      (file ++ rest).takeWhile (· ≠ slash) = file := by
    intro file rest hname hhead
    have hpass : ∀ c ∈ file, decide (c ≠ slash) = true := by
      rintro c hc
      refine decide_eq_true fun heq => hname ?_
      rwa [heq] at hc
    rw [List.takeWhile_append_of_pos hpass]
    rcases rest with _ | ⟨c, rest⟩
    · exact List.append_nil file
    · have hc : c = slash := by
        rcases hhead with hnil | hhead
        · cases hnil
        · exact Option.some.inj hhead
      rw [List.takeWhile_cons_of_neg (by rw [hc]; simp), List.append_nil]
  rw [← hcut hfile hrest, h, hcut hfile' hrest']

/-- No directory of a tree is got to in two ways, wherever else the way may
    stop. -/
theorem tree_nodup (htree : Tree sys) {children : Path → List Path}
    (hsub : ∀ q, (children q).Sublist (realSubdirs sys q)) {fuel : Nat} {d : Path} {vs : List Path}
    (hvs : preorder children fuel d = some vs) : vs.Nodup := by
  have hleads : ∀ {y z}, Leads children y z → Leads (realSubdirs sys) y z :=
    fun h => Relation.ReflTransGen.mono (fun q _ hmem => (hsub q).subset hmem) _ _ h
  refine preorder_nodup ?_ ?_ hvs
  · intro q y hy hback
    rcases mem_dirsBy.mp ((hsub q).subset hy) with ⟨_, file, _, _, _, rfl, _⟩
    rcases leads_append (hleads hback) with ⟨rest, hrest, _⟩
    have hlength := congrArg List.length hrest
    have hlonger := below_length q file
    rw [List.length_append] at hlength
    omega
  · intro q
    refine List.Pairwise.sublist (hsub q) ?_
    unfold realSubdirs dirsBy
    cases hopen : sys.opendir q with
    | none => exact List.Pairwise.nil
    | some files =>
        have hnodup := htree.nodup q files hopen
        refine List.Pairwise.filter _ (List.pairwise_map.mpr (List.Pairwise.filter _ ?_))
        refine hnodup.imp_of_mem fun {file file'} hfile hfile' hne z hz hz' => hne ?_
        rcases leads_append (hleads hz) with ⟨rest, hrest, hhead⟩
        rcases leads_append (hleads hz') with ⟨rest', hrest', hhead'⟩
        rw [hrest, below, below, List.append_assoc, List.append_assoc, List.append_cancel_left_eq,
          List.cons_append, List.cons_append, List.cons.injEq] at hrest'
        exact name_eq (htree.named q files hopen file hfile) (htree.named q files hopen file' hfile')
          hhead hhead' hrest'.2

/-- And below every directory there is an end. -/
theorem tree_preorder (htree : Tree sys) {children : Path → List Path}
    (hsub : ∀ q, (children q).Sublist (realSubdirs sys q)) (d : Path) :
    ∃ fuel vs, preorder children fuel d = some vs := by
  rcases htree.finite with ⟨height, hheight⟩
  refine ⟨height d + 1, preorder_of_height height ?_ (Nat.lt_succ_self _)⟩
  intro q _ y hy
  rcases mem_dirsBy.mp ((hsub q).subset hy) with ⟨files, file, hopen, hfile, hvisible, rfl, hdir⟩
  exact hheight q files hopen file hfile hvisible hdir

/-- A system on which watches can be set on every directory, and every directory
    opened. -/
structure Watchable (sys : System κ) : Prop where
  opens : ∀ q, sys.isDir q = true → ∃ files, sys.opendir q = some files
  watches : ∀ q k, sys.isDir q = true → ¬ (sys.inotifyAddWatch q k).1 < 0

/-- The call ends, and has put an entry at the end of the list for the directory
    and for each one that is got to from it by names without a dot in front, by
    the path that is made of those names. -/
def Covers (sys : System κ) (d : Path) (w : Watcher κ) : Prop :=
  ∃ fuel iRet w' es, addWatchDirectory_R sys fuel d w = some (iRet, w') ∧
    w'.directoryPathDescList = w.directoryPathDescList ++ es ∧
    (es.map DirectoryPathDesc.directoryPath).Nodup ∧
    ∀ q, q ∈ es.map DirectoryPathDesc.directoryPath ↔ Leads (realSubdirs sys) d q

/-- For every name without a dot in front in a directory that is got to: if it
    is a directory's, its path fits into the buffer, and if it is not, then what
    the buffer holds is no directory's path. -/
def Fits (sys : System κ) (d : Path) : Prop :=
  ∀ q files file, Leads (realSubdirs sys) d q → sys.opendir q = some files → file ∈ files →
    hidden file = false →
      (sys.isDir (below q file) = true → (below q file).length ≤ 255) ∧
      (sys.isDir (below q file) = false → sys.isDir (printPath q file) = false)

/-- On such a system a visit that adds goes where the loop goes. -/
theorem visitAdd_subdirs (htree : Tree sys) (hsys : Watchable sys) (q : Path) (w : Watcher κ) :
    (visitAdd sys q w).2 = subdirs sys q := by
  unfold visitAdd
  by_cases hdir : sys.isDir q = true
  · rw [(addWatchDirectory_spec sys q w).2 (hsys.watches q w.kernel hdir),
      if_neg (show (0 : Int32) ≠ -1 by decide)]
  · -- What is no directory cannot be opened, so there is nothing to go on to.
    have hnone : subdirs sys q = [] := by
      unfold subdirs dirsBy
      cases hopen : sys.opendir q with
      | none => rfl
      | some files => exact absurd (htree.opened q files hopen) hdir
    rw [hnone, ite_self]

/-- A call that ends has entered what the walk came upon. -/
theorem addWatchDirectory_R_entries (htree : Tree sys) (hsys : Watchable sys) {d : Path}
    (hd : sys.isDir d = true) (fuel : Nat) (w : Watcher κ) :
    (∀ vs, preorder (subdirs sys) fuel d = some vs → ∃ iRet w' es,
      addWatchDirectory_R sys fuel d w = some (iRet, w') ∧
      w'.directoryPathDescList = w.directoryPathDescList ++ es ∧
      es.map DirectoryPathDesc.directoryPath = vs) ∧
    (preorder (subdirs sys) fuel d = none → addWatchDirectory_R sys fuel d w = none) := by
  have hwalk := walk_eq_preorder (visitAdd_subdirs htree hsys) fuel d w
  rw [← addWatchDirectory_R_walk] at hwalk
  constructor
  · intro vs hvs
    rw [hvs, Option.map_some, Option.map_eq_some_iff] at hwalk
    rcases hwalk with ⟨⟨iRet, w'⟩, hcall, rfl⟩
    -- Whatever a walk from a directory comes upon is a directory.
    have hdirs : ∀ q ∈ vs, sys.isDir q = true := by
      intro q hq
      rcases Relation.ReflTransGen.cases_tail ((mem_preorder_iff hvs).mp hq) with rfl | ⟨_, _, hchild⟩
      · exact hd
      · rcases mem_dirsBy.mp hchild with ⟨_, _, _, _, _, _, hdir⟩
        exact hdir
    have hfails : ∀ q ∈ vs, ∀ k, (sys.inotifyAddWatch q k).1 < 0 ↔ (fun _ => false) q = true :=
      fun q hq k => iff_of_false (hsys.watches q k (hdirs q hq)) Bool.false_ne_true
    rcases visited_visitAdd hfails w with ⟨es, hlist, hpaths, _⟩
    exact ⟨iRet, _, es, hcall, hlist, hpaths.trans (List.filter_eq_self.mpr fun _ _ => rfl)⟩
  · intro hnone
    rw [hnone, Option.map_none, Option.map_eq_none_iff] at hwalk
    exact hwalk

/-- Where everything fits, the loop goes to the directories there are. -/
theorem subdirs_eq {d q : Path} (hfits : Fits sys d) (hq : Leads (realSubdirs sys) d q) :
    realSubdirs sys q = subdirs sys q := by
  unfold subdirs realSubdirs dirsBy
  cases hopen : sys.opendir q with
  | none => rfl
  | some files =>
      have hnames : ∀ file ∈ files.filter fun file => !hidden file,
          (sys.isDir (below q file) = true → (below q file).length ≤ 255) ∧
          (sys.isDir (below q file) = false → sys.isDir (printPath q file) = false) := by
        intro file hfile
        rcases List.mem_filter.mp hfile with ⟨hfile, hvisible⟩
        exact hfits q files file hq hopen hfile (by simpa using hvisible)
      simp only []
      generalize files.filter (fun file => !hidden file) = names at hnames
      induction names with
      | nil => rfl
      | cons file names ih =>
          have hfile := hnames file List.mem_cons_self
          have hrest := ih fun file' hfile' => hnames file' (List.mem_cons_of_mem _ hfile')
          rw [List.map_cons, List.map_cons]
          cases hdir : sys.isDir (below q file) with
          | true =>
              rw [printPath_eq (hfile.1 hdir), List.filter_cons_of_pos hdir,
                List.filter_cons_of_pos hdir, hrest]
          | false =>
              rw [List.filter_cons_of_neg (by rw [hdir]; exact Bool.false_ne_true),
                List.filter_cons_of_neg (by rw [hfile.2 hdir]; exact Bool.false_ne_true), hrest]

/-- Two entries of a directory whose paths are cut off to one are a repetition
    where the loop goes. -/
theorem subdirs_collision {q file file' : Path} {files : List Path}
    (hopen : sys.opendir q = some files) (hfile : file ∈ files) (hfile' : file' ∈ files)
    (hvisible : hidden file = false) (hvisible' : hidden file' = false)
    (hdir : sys.isDir (printPath q file) = true) (heq : printPath q file = printPath q file')
    (hnodup : (subdirs sys q).Nodup) : file = file' := by
  unfold subdirs dirsBy at hnodup
  rw [hopen] at hnodup
  simp only [List.filter_map] at hnodup
  have hmem : ∀ name ∈ files, hidden name = false → sys.isDir (printPath q name) = true →
      name ∈ ((files.filter fun file => !hidden file).filter (sys.isDir ∘ printPath q)) := by
    intro name hname hvisible hdir
    exact List.mem_filter.mpr ⟨List.mem_filter.mpr ⟨hname, by rw [hvisible]; rfl⟩, hdir⟩
  exact List.inj_on_of_nodup_map hnodup (hmem file hfile hvisible hdir)
    (hmem file' hfile' hvisible' (heq ▸ hdir)) heq

/-- A walk that comes upon the directories there are, each once, has cut off no
    path that matters. -/
theorem fits_of_preorder {fuel : Nat} {d : Path} {vs : List Path}
    (hvs : preorder (subdirs sys) fuel d = some vs) (hnodup : vs.Nodup)
    (hpaths : ∀ q, q ∈ vs ↔ Leads (realSubdirs sys) d q) : Fits sys d := by
  rcases preorder_unique hvs hnodup with ⟨hfirst, heach, honce⟩
  have hmem : ∀ q, q ∈ vs ↔ q ∈ d :: vs.flatMap (subdirs sys) :=
    fun _ => (preorder_perm hvs).mem_iff
  intro q files file hq hopen hfile hvisible
  have hqvs : q ∈ vs := (hpaths q).mpr hq
  constructor
  · -- The walk came upon it, and a path the walk has made of a name is short.
    intro hdir
    have hbelow : Leads (realSubdirs sys) d (below q file) :=
      hq.tail (mem_dirsBy.mpr ⟨files, file, hopen, hfile, hvisible, rfl, hdir⟩)
    rcases List.mem_cons.mp ((hmem _).mp ((hpaths _).mpr hbelow)) with heq | hgone
    · rcases leads_append hq with ⟨rest, rfl, _⟩
      have hlength := congrArg List.length heq
      have hlonger := below_length (d ++ rest) file
      rw [List.length_append] at hlonger
      omega
    · rcases List.mem_flatMap.mp hgone with ⟨p, _, hchild⟩
      rcases mem_dirsBy.mp hchild with ⟨_, name, _, _, _, hname, _⟩
      rw [← hname]
      exact printPath_length p name
  · -- If the walk went to what is left of the path, that is a directory it goes to anyway.
    intro hdir
    by_contra hcut
    rw [Bool.not_eq_false] at hcut
    have hgoes : printPath q file ∈ subdirs sys q :=
      mem_dirsBy.mpr ⟨files, file, hopen, hfile, hvisible, rfl, hcut⟩
    have hleads := (hpaths _).mp ((hmem _).mpr (List.mem_cons_of_mem _
      (List.mem_flatMap.mpr ⟨q, hqvs, hgoes⟩)))
    rcases Relation.ReflTransGen.cases_tail hleads with heq | ⟨p, hp, hchild⟩
    · rw [heq] at hgoes
      exact hfirst q hqvs hgoes
    rcases mem_dirsBy.mp hchild with ⟨files', file', hopen', hfile', hvisible', hpath, _⟩
    have hshort : (below p file').length ≤ 255 := by
      rw [hpath]
      exact printPath_length q file
    have hsame : printPath p file' = printPath q file := by
      rw [printPath_eq hshort, hpath]
    have hgoes' : printPath q file ∈ subdirs sys p :=
      mem_dirsBy.mpr ⟨files', file', hopen', hfile', hvisible', hsame, hcut⟩
    have hpq : p = q := honce p ((hpaths p).mpr hp) q hqvs _ hgoes' hgoes
    subst hpq
    rw [hopen, Option.some.injEq] at hopen'
    subst hopen'
    have hfiles := subdirs_collision hopen hfile hfile' hvisible hvisible' hcut hsame.symm
      (heach p hqvs)
    rw [hfiles, hpath, hcut] at hdir
    cases hdir

theorem fits_of_covers (htree : Tree sys) (hsys : Watchable sys) {d : Path}
    (hd : sys.isDir d = true) {w : Watcher κ} (h : Covers sys d w) : Fits sys d := by
  rcases h with ⟨fuel, iRet, w', es, hcall, hlist, hnodup, hpaths⟩
  rcases addWatchDirectory_R_entries htree hsys hd fuel w with ⟨hends, hendless⟩
  cases hvs : preorder (subdirs sys) fuel d with
  | none =>
      rw [hendless hvs] at hcall
      cases hcall
  | some vs =>
      rcases hends vs hvs with ⟨iRet₁, w₁, es₁, hcall₁, hlist₁, rfl⟩
      rw [hcall, Option.some.injEq, Prod.mk.injEq] at hcall₁
      rcases hcall₁ with ⟨_, rfl⟩
      rw [hlist, List.append_cancel_left_eq] at hlist₁
      subst hlist₁
      exact fits_of_preorder hvs hnodup hpaths

/-- On a tree on which every directory can be watched and opened, the call ends
    with one entry for every directory exactly if all paths fit that matter. -/
theorem covers_iff_fits (htree : Tree sys) (hsys : Watchable sys) {d : Path}
    (hd : sys.isDir d = true) (w : Watcher κ) : Covers sys d w ↔ Fits sys d := by
  constructor
  · exact fits_of_covers htree hsys hd
  · intro hfits
    have hsub : ∀ q, (realSubdirs sys q).Sublist (realSubdirs sys q) := fun q => List.Sublist.refl _
    rcases tree_preorder htree hsub d with ⟨fuel, vs, hvs⟩
    have hvs' := hvs
    rw [preorder_congr fun q hq => subdirs_eq hfits hq] at hvs'
    rcases (addWatchDirectory_R_entries htree hsys hd fuel w).1 vs hvs'
      with ⟨iRet, w', es, hcall, hlist, rfl⟩
    exact ⟨fuel, iRet, w', es, hcall, hlist, tree_nodup htree hsub hvs, fun q => mem_preorder_iff hvs⟩

/-- A file tree on a kernel that accepts everything and counts. -/
def counting (t : FileTree) : System Nat := t.system (fun _ k => (k + 1, k + 1)) fun _ k => k

theorem counting_tree (t : FileTree) : Tree (counting t) := fileTree_tree

theorem counting_accepts (t : FileTree) (q : Path) (k : Nat) :
    ¬ ((counting t).inotifyAddWatch q k).1 < 0 := Int.not_lt.mpr (Int.natCast_nonneg (k + 1))

theorem counting_watchable (t : FileTree) : Watchable (counting t) :=
  ⟨fun _ h => opendir_of_isDir h, fun q k _ => counting_accepts t q k⟩

def noWatches : Watcher Nat := { kernel := 0, directoryPathDescList := [], removed := [] }

/-- `/a` with `/a/b` in it. -/
def twoDirs : FileTree :=
  { files := [([[0x61]], .dir), ([[0x61], [0x62]], .dir)]
    nodup := by decide
    named := by decide }

theorem covers_iff_fits_twoDirs : Covers (counting twoDirs) [slash, 0x61] noWatches ↔
    Fits (counting twoDirs) [slash, 0x61] :=
  covers_iff_fits (counting_tree _) (counting_watchable _) (by decide) noWatches

/-- A path of 254 characters. -/
def longPath : Path := slash :: List.replicate 253 0x61

/-- The directory there, with a file in it. -/
def longName : FileTree :=
  { files := [([List.replicate 253 0x61], .dir), ([List.replicate 253 0x61, [0x62]], .reg)]
    nodup := by decide +kernel
    named := by decide +kernel }

/-- What is left of the file's path is the directory's with a slash behind. -/
theorem longName_uncovered : ¬ ∀ (t : FileTree) (d : Path) (w : Watcher Nat),
    (counting t).isDir d = true → Covers (counting t) d w := by
  intro h
  have hd : (counting longName).isDir longPath = true := by decide +kernel
  have hopen : (counting longName).opendir longPath = some [[dot], [dot, dot], [0x62]] := by
    decide +kernel
  have hfile : (counting longName).isDir (below longPath [0x62]) = false := by decide +kernel
  have hleft : (counting longName).isDir (printPath longPath [0x62]) = true := by decide +kernel
  have hfits := fits_of_covers (counting_tree _) (counting_watchable _) hd (h longName _ noWatches hd)
  have hcut := hfits longPath _ [0x62] Relation.ReflTransGen.refl hopen
    (List.mem_cons_of_mem _ (List.mem_cons_of_mem _ List.mem_cons_self)) rfl
  exact absurd hleft (Bool.eq_false_iff.mp (hcut.2 hfile))

/-- Where the loop goes from the directories that can be watched. -/
def watchedSubdirs (sys : System κ) (fails : Path → Bool) (q : Path) : List Path :=
  if fails q then [] else subdirs sys q

/-- All paths below a directory fit into the buffer. -/
def Short (sys : System κ) (d : Path) : Prop :=
  ∀ q files file, Leads (realSubdirs sys) d q → sys.opendir q = some files → file ∈ files →
    hidden file = false → (below q file).length ≤ 255

theorem fits_of_short {d : Path} (h : Short sys d) : Fits sys d := by
  intro q files file hq hopen hfile hvisible
  have hlength := h q files file hq hopen hfile hvisible
  refine ⟨fun _ => hlength, fun hdir => ?_⟩
  rw [printPath_eq hlength]
  exact hdir

/-- The list as it was, with the entries for the directories that are still to
    be visited behind; and the watches that have been ended, with theirs behind,
    are those that were to be. -/
structure Undoing (w : Watcher κ) (fails : Path → Bool) (removed : List Int) (vs : List Path)
    (s : Watcher κ) : Prop where
  once : vs.Nodup
  foreign : ∀ q ∈ vs, ∀ desc ∈ w.directoryPathDescList, desc.directoryPath ≠ q
  entries : ∃ es, s.directoryPathDescList = w.directoryPathDescList ++ es ∧
    es.map DirectoryPathDesc.directoryPath = vs.filter (fun q => !fails q) ∧
    s.removed ++ es.map DirectoryPathDesc.iWd = removed

/-- A directory that could not be watched has no entry. -/
theorem undoing_missing {w : Watcher κ} {fails : Path → Bool} {removed : List Int} {q : Path}
    {vs : List Path} {s : Watcher κ} (h : Undoing w fails removed (q :: vs) s) (hfails : fails q = true) :
    findPath q s = none := by
  rcases h.entries with ⟨es, hlist, hpaths, _⟩
  rw [List.filter_cons_of_neg (by rw [hfails]; exact Bool.false_ne_true)] at hpaths
  rw [findPath, hlist, List.find?_eq_none]
  intro desc hdesc heq
  have hpath := of_decide_eq_true heq
  rcases List.mem_append.mp hdesc with hold | hnew
  · exact h.foreign q List.mem_cons_self desc hold hpath
  · have hmem : desc.directoryPath ∈ vs.filter (fun q => !fails q) := by
      rw [← hpaths]
      exact List.mem_map_of_mem hnew
    rw [hpath] at hmem
    exact (List.nodup_cons.mp h.once).1 (List.mem_filter.mp hmem).1

/-- The entry of one that could is the first behind the list as it was. -/
theorem undoing_found {w : Watcher κ} {fails : Path → Bool} {removed : List Int} {q : Path}
    {vs : List Path} {s : Watcher κ} (h : Undoing w fails removed (q :: vs) s)
    (hfails : fails q = false) :
    ∃ e es, findPath q s = some e ∧
      (s.directoryPathDescList.eraseP fun desc => desc.directoryPath = q)
        = w.directoryPathDescList ++ es ∧
      es.map DirectoryPathDesc.directoryPath = vs.filter (fun q => !fails q) ∧
      s.removed ++ e.iWd :: es.map DirectoryPathDesc.iWd = removed := by
  rcases h.entries with ⟨es, hlist, hpaths, hremoved⟩
  have hbefore : ∀ desc ∈ w.directoryPathDescList, ¬ decide (desc.directoryPath = q) = true :=
    fun desc hdesc heq => h.foreign q List.mem_cons_self desc hdesc (of_decide_eq_true heq)
  rw [List.filter_cons_of_pos (by rw [hfails]; rfl)] at hpaths
  rcases es with _ | ⟨e, es⟩
  · cases hpaths
  rw [List.map_cons, List.cons.injEq] at hpaths
  rcases hpaths with ⟨hpath, hpaths⟩
  refine ⟨e, es, ?_, ?_, hpaths, hremoved⟩
  · rw [findPath, hlist, List.find?_append, List.find?_eq_none.mpr hbefore, Option.none_or]
    simp only [List.find?_cons, hpath, decide_true]
  · rw [hlist, List.eraseP_append_right _ hbefore]
    simp only [List.eraseP_cons, hpath, decide_true, cond_true]

/-- A visit that deletes takes out the entry the directory has, if it has one. -/
theorem visitDel_undoing {w : Watcher κ} {fails : Path → Bool} {removed : List Int} (q : Path)
    (vs : List Path) (s : Watcher κ) (h : Undoing w fails removed (q :: vs) s) :
    (visitDel sys q s).2 = watchedSubdirs sys fails q ∧
      Undoing w fails removed vs (visitDel sys q s).1 := by
  have hvs := (List.nodup_cons.mp h.once).2
  have hforeign : ∀ p ∈ vs, ∀ desc ∈ w.directoryPathDescList, desc.directoryPath ≠ p :=
    fun p hp => h.foreign p (List.mem_cons_of_mem _ hp)
  cases hfails : fails q with
  | true =>
      have hmissing := undoing_missing h hfails
      have hsame : delWatchDirectory sys q s = s := by
        rw [delWatchDirectory, hmissing]
      have hentries := h.entries
      rw [List.filter_cons_of_neg (by rw [hfails]; exact Bool.false_ne_true)] at hentries
      rw [visitDel, watchedSubdirs, if_pos hmissing, if_pos hfails, hsame]
      exact ⟨rfl, hvs, hforeign, hentries⟩
  | false =>
      rcases undoing_found h hfails with ⟨e, es, hfound, herase, hpaths, hremoved⟩
      have hne : ¬ findPath q s = none := by
        rw [hfound]
        exact Option.some_ne_none e
      rw [visitDel, watchedSubdirs, if_neg hne, hfails, if_neg Bool.false_ne_true, delWatchDirectory,
        hfound]
      refine ⟨rfl, hvs, hforeign, es, herase, hpaths, ?_⟩
      rw [List.append_assoc, List.singleton_append]
      exact hremoved

/-- Deleting makes the list shorter, or changes nothing. -/
theorem delWatchDirectory_shorter (sys : System κ) (q : Path) (w : Watcher κ) :
    (findPath q w = none → delWatchDirectory sys q w = w) ∧
    (findPath q w ≠ none → (delWatchDirectory sys q w).directoryPathDescList.length
      < w.directoryPathDescList.length) := by
  unfold delWatchDirectory
  cases hfind : findPath q w with
  | none => exact ⟨fun _ => rfl, fun h => absurd rfl h⟩
  | some desc =>
      refine ⟨fun h => absurd h (Option.some_ne_none desc), fun _ => ?_⟩
      have hmem := List.mem_of_find?_eq_some hfind
      have hlength := List.length_eraseP_of_mem hmem (List.find?_some hfind)
      have hpos := List.length_pos_of_mem hmem
      change (w.directoryPathDescList.eraseP _).length < _
      omega

/-- Deleting goes on only from a directory that it has taken out of the list, so
    it ends on any system. -/
theorem delWatchDirectory_R_ends (sys : System κ) (d : Path) (w : Watcher κ) :
    ∃ r, delWatchDirectory_R sys (w.directoryPathDescList.length + 1) d w = some r := by
  have hle : ∀ q (w : Watcher κ), (visitDel sys q w).1.directoryPathDescList.length
      ≤ w.directoryPathDescList.length := by
    intro q w
    by_cases hmissing : findPath q w = none
    · rw [visitDel, (delWatchDirectory_shorter sys q w).1 hmissing]
    · exact Nat.le_of_lt ((delWatchDirectory_shorter sys q w).2 hmissing)
  have hlt : ∀ q (w : Watcher κ), (visitDel sys q w).2 ≠ [] →
      (visitDel sys q w).1.directoryPathDescList.length < w.directoryPathDescList.length := by
    intro q w hnext
    refine (delWatchDirectory_shorter sys q w).2 fun hmissing => hnext ?_
    rw [visitDel, if_pos hmissing]
  rcases walk_of_measure (fun w : Watcher κ => w.directoryPathDescList.length) hle hlt d
    (Nat.lt_succ_self w.directoryPathDescList.length) with ⟨w', hwalk, _⟩
  rw [← delWatchDirectory_R_walk, Option.map_eq_some_iff] at hwalk
  rcases hwalk with ⟨r, hr, _⟩
  exact ⟨r, hr⟩

/-- An addition goes on from the directories that can be watched. -/
theorem visitAdd_watchedSubdirs {fails : Path → Bool}
    (hfails : ∀ q k, (sys.inotifyAddWatch q k).1 < 0 ↔ fails q = true) (q : Path) (w : Watcher κ) :
    (visitAdd sys q w).2 = watchedSubdirs sys fails q := by
  unfold visitAdd watchedSubdirs
  by_cases hneg : (sys.inotifyAddWatch q w.kernel).1 < 0
  · rw [(addWatchDirectory_spec sys q w).1 hneg, if_pos rfl, if_pos ((hfails q _).mp hneg)]
  · rw [(addWatchDirectory_spec sys q w).2 hneg, if_neg (show (0 : Int32) ≠ -1 by decide),
      if_neg fun h => hneg ((hfails q _).mpr h)]

/-- What both walks come upon: directories of the tree, each once. -/
theorem watched_preorder (htree : Tree sys) (fails : Path → Bool) {d : Path} (hshort : Short sys d) :
    ∃ fuel vs, preorder (watchedSubdirs sys fails) fuel d = some vs ∧ vs.Nodup ∧
      ∀ q ∈ vs, Leads (realSubdirs sys) d q := by
  have hsub : ∀ q, (if fails q then [] else realSubdirs sys q).Sublist (realSubdirs sys q) := by
    intro q
    cases fails q with
    | true => exact List.nil_sublist _
    | false => exact List.Sublist.refl _
  have hleads : ∀ {q z}, Leads (fun q => if fails q then [] else realSubdirs sys q) q z →
      Leads (realSubdirs sys) q z :=
    fun h => Relation.ReflTransGen.mono (fun q _ hmem => (hsub q).subset hmem) _ _ h
  rcases tree_preorder htree hsub d with ⟨fuel, vs, hvs⟩
  refine ⟨fuel, vs, ?_, tree_nodup htree hsub hvs, fun q hq => hleads ((mem_preorder_iff hvs).mp hq)⟩
  rw [← hvs]
  refine (preorder_congr fun q hq => ?_).symm
  unfold watchedSubdirs
  rw [subdirs_eq (fits_of_short hshort) (hleads hq)]

/-- A list without an entry for a directory or for a path below has none for
    what is in the directory. -/
theorem foreign_of_leads {d q : Path} (hq : Leads (realSubdirs sys) d q) {desc : DirectoryPathDesc}
    (hforeign : desc.directoryPath ≠ d ∧ ¬ (d ++ [slash]) <+: desc.directoryPath) :
    desc.directoryPath ≠ q := by
  intro heq
  rcases leads_append hq with ⟨rest, rfl, rfl | hhead⟩
  · rw [List.append_nil] at heq
    exact hforeign.1 heq
  · rcases List.head?_eq_some_iff.mp hhead with ⟨rest', rfl⟩
    refine hforeign.2 ⟨rest', ?_⟩
    rw [heq, List.append_assoc, List.singleton_append]

/-- On a tree whose paths fit, with some directories that cannot be watched and
    some that cannot be opened: adding and then deleting a directory that the
    list has nothing of leaves the list as it was, and ends the watch of every
    entry that was added, once. And on any system deleting ends. -/
theorem del_undoes_add (htree : Tree sys) {fails : Path → Bool}
    (hfails : ∀ q k, (sys.inotifyAddWatch q k).1 < 0 ↔ fails q = true) {d : Path} (hshort : Short sys d)
    {w : Watcher κ} (hforeign : ∀ desc ∈ w.directoryPathDescList,
      desc.directoryPath ≠ d ∧ ¬ (d ++ [slash]) <+: desc.directoryPath) :
    (∃ fuel iRet w₁ es iRet' w₂, addWatchDirectory_R sys fuel d w = some (iRet, w₁) ∧
      w₁.directoryPathDescList = w.directoryPathDescList ++ es ∧ w₁.removed = w.removed ∧
      delWatchDirectory_R sys fuel d w₁ = some (iRet', w₂) ∧
      w₂.directoryPathDescList = w.directoryPathDescList ∧
      w₂.removed = w.removed ++ es.map DirectoryPathDesc.iWd) ∧
    ∀ (sys' : System κ) d' (w' : Watcher κ),
      ∃ r, delWatchDirectory_R sys' (w'.directoryPathDescList.length + 1) d' w' = some r := by
  refine ⟨?_, delWatchDirectory_R_ends⟩
  rcases watched_preorder htree fails hshort with ⟨fuel, vs, hwatched, hnodup, hmem⟩
  have hwalk := walk_eq_preorder (visitAdd_watchedSubdirs hfails) fuel d w
  rw [hwatched, Option.map_some, ← addWatchDirectory_R_walk, Option.map_eq_some_iff] at hwalk
  rcases hwalk with ⟨⟨iRet, w₁⟩, hcall, hstate⟩
  have hrefused : ∀ q ∈ vs, ∀ k, (sys.inotifyAddWatch q k).1 < 0 ↔ fails q = true := fun q _ => hfails q
  rcases visited_visitAdd hrefused w with ⟨es, hlist, hpaths, hremoved⟩
  rw [← hstate] at hlist hremoved
  have hundoing : Undoing w fails (w.removed ++ es.map DirectoryPathDesc.iWd) (vs ++ []) w₁ := by
    rw [List.append_nil]
    exact ⟨hnodup, fun q hq desc hdesc => foreign_of_leads (hmem q hq) (hforeign desc hdesc), es, hlist,
      hpaths, by rw [hremoved]⟩
  have hvisit : ∀ q rest s, Undoing w fails (w.removed ++ es.map DirectoryPathDesc.iWd) (q :: rest) s →
      (visitDel sys q s).2 = watchedSubdirs sys fails q ∧
        Undoing w fails (w.removed ++ es.map DirectoryPathDesc.iWd) rest (visitDel sys q s).1 :=
    visitDel_undoing
  rcases walk_of_preorder _ hvisit hwatched [] w₁ hundoing with ⟨hdel, hundone⟩
  rw [← delWatchDirectory_R_walk, Option.map_eq_some_iff] at hdel
  rcases hdel with ⟨⟨iRet', w₂⟩, hcall', hstate'⟩
  rw [← hstate'] at hundone
  rcases hundone.entries with ⟨es', hlist', hpaths', hremoved'⟩
  rw [List.filter_nil, List.map_eq_nil_iff] at hpaths'
  subst hpaths'
  rw [List.append_nil] at hlist'
  rw [List.map_nil, List.append_nil] at hremoved'
  exact ⟨fuel, iRet, w₁, es, iRet', w₂, hcall, hlist, hremoved, hcall', hlist', hremoved'⟩

/-- Directories that cannot be opened do not make it another tree. -/
theorem tree_of_opened {sys' : System κ} (htree : Tree sys)
    (hopened : ∀ q files, sys'.opendir q = some files → sys.opendir q = some files)
    (hdir : ∀ q, sys'.isDir q = sys.isDir q) : Tree sys' := by
  rcases htree.finite with ⟨height, hheight⟩
  refine ⟨fun q files h => htree.nodup q files (hopened q files h),
    fun q files h => htree.named q files (hopened q files h), fun q files h => ?_, height, ?_⟩
  · rw [hdir]
    exact htree.opened q files (hopened q files h)
  · intro q files h file hfile hvisible hbelow
    rw [hdir] at hbelow
    exact hheight q files (hopened q files h) file hfile hvisible hbelow

/-- `/a` with `/a/b`, `/a/c` and `/a/c/d` in it. -/
def fourDirs : FileTree :=
  { files := [([[0x61]], .dir), ([[0x61], [0x62]], .dir), ([[0x61], [0x63]], .dir),
      ([[0x61], [0x63], [0x64]], .dir)]
    nodup := by decide
    named := by decide }

/-- There `/a/b` cannot be watched, and `/a/c` cannot be opened. -/
def guarded : System Nat :=
  { counting fourDirs with
    inotifyAddWatch := fun q k =>
      if q = [slash, 0x61, slash, 0x62] then (-1, k) else (k + 1, k + 1)
    opendir := fun q =>
      if q = [slash, 0x61, slash, 0x63] then none else (counting fourDirs).opendir q }

theorem guarded_opened {q : Path} {files : List Path} (h : guarded.opendir q = some files) :
    (counting fourDirs).opendir q = some files := by
  have hopen : (if q = [slash, 0x61, slash, 0x63] then none else (counting fourDirs).opendir q)
      = some files := h
  rw [Option.ite_none_left_eq_some] at hopen
  exact hopen.2

theorem guarded_fails (q : Path) (k : Nat) :
    (guarded.inotifyAddWatch q k).1 < 0 ↔ decide (q = [slash, 0x61, slash, 0x62]) = true := by
  change (if q = [slash, 0x61, slash, 0x62] then ((-1 : Int), k) else (k + 1, k + 1)).1 < 0 ↔ _
  rw [decide_eq_true_eq]
  split
  · rename_i hq
    exact iff_of_true (show (-1 : Int) < 0 by decide) hq
  · rename_i hq
    exact iff_of_false (Int.not_lt.mpr (Int.natCast_nonneg (k + 1))) hq

theorem guarded_short : Short guarded [slash, 0x61] := by
  intro q files file hq hopen hfile _
  have hvs : preorder (realSubdirs guarded) 3 [slash, 0x61]
      = some [[slash, 0x61], [slash, 0x61, slash, 0x62], [slash, 0x61, slash, 0x63]] := by
    decide +kernel
  have hmem := (mem_preorder_iff hvs).mpr hq
  have hall : ∀ q ∈ [[slash, 0x61], [slash, 0x61, slash, 0x62], [slash, 0x61, slash, 0x63]],
      ∀ file ∈ (guarded.opendir q).getD [], (below q file).length ≤ 255 := by decide +kernel
  refine hall q hmem file ?_
  rw [hopen]
  exact hfile

/-- The list has an entry for `/ab`. -/
def oneWatch : Watcher Nat :=
  { kernel := 4, directoryPathDescList := [⟨4, [slash, 0x61, 0x62]⟩], removed := [] }

theorem del_undoes_add_guarded :
    (∃ fuel iRet w₁ es iRet' w₂,
      addWatchDirectory_R guarded fuel [slash, 0x61] oneWatch = some (iRet, w₁) ∧
      w₁.directoryPathDescList = oneWatch.directoryPathDescList ++ es ∧
      w₁.removed = oneWatch.removed ∧
      delWatchDirectory_R guarded fuel [slash, 0x61] w₁ = some (iRet', w₂) ∧
      w₂.directoryPathDescList = oneWatch.directoryPathDescList ∧
      w₂.removed = oneWatch.removed ++ es.map DirectoryPathDesc.iWd) ∧
    ∀ (sys' : System Nat) d' (w' : Watcher Nat),
      ∃ r, delWatchDirectory_R sys' (w'.directoryPathDescList.length + 1) d' w' = some r := by
  refine del_undoes_add (tree_of_opened (counting_tree fourDirs) (fun _ _ => guarded_opened)
    fun _ => rfl) guarded_fails guarded_short fun desc hdesc => ?_
  rw [List.mem_singleton.mp hdesc]
  decide

end InotifyDevice

end Input

end ZeusOS
