import Mathlib.Algebra.Order.BigOperators.Group.List
import Mathlib.Data.List.Nodup
import ZeusOS.Input.InotifyDevice

/-!
# File Trees

File systems without symbolic links. A file is known by the names that lead to
it from the root, so the whole system is the list of its files, and two ways to
one file differ in nothing but slashes and dots.

A path is taken apart at its slashes and followed name by name. That happens
only in a directory, so a slash behind anything else leads nowhere. An empty
name and a single dot stay where they are, two dots go up.

What the proofs about recursion need of a file system is less: the names in a
directory are different and have no slash, and a directory in a directory is
further from the leaves. `Tree` says that, of whatever `stat` and `opendir`
say, and `fileTree_tree` that it holds of a file tree.

## Main definitions

* `FileTree`: A file system without links.
* `components`, `FileTree.resolve`: Following a path.
* `FileTree.system`: What the system says about a file tree.
* `Tree`: A system that is as a file tree is.

## Theorems

* `components_below`: Taking apart a path that was put together.
* `resolve_below`: Where an entry of a directory is.
* `fileTree_tree`: File trees are trees.
-/

namespace ZeusOS

namespace Input

namespace InotifyDevice

/-- A path, taken apart at its slashes. -/
def components : Path → List Path
  | [] => [[]]
  | c :: path =>
    if c = slash then [] :: components path
    else match components path with
      | [] => [[c]]
      | name :: names => (c :: name) :: names

/-- The files of a file system besides its root, by the names that lead to
    them. -/
structure FileTree where
  files : List (List Path × FileType)
  nodup : (files.map Prod.fst).Nodup
  named : ∀ file ∈ files, ∀ name ∈ file.1,
    name ≠ [] ∧ name ≠ [dot] ∧ name ≠ [dot, dot] ∧ slash ∉ name

/-- What is there. The root is a directory. -/
def FileTree.type (t : FileTree) (here : List Path) : Option FileType :=
  if here = [] then some .dir else t.files.lookup here

/-- One name further, from a directory. -/
def FileTree.step (t : FileTree) (here : List Path) (name : Path) : Option (List Path) :=
  if t.type here = some .dir then
    if name = [] ∨ name = [dot] then some here
    else if name = [dot, dot] then some here.dropLast
    else if (t.type (here ++ [name])).isSome then some (here ++ [name])
    else none
  else none

/-- The file that a path leads to. Every path is followed from the root, which
    is where the process was started; the empty one leads nowhere. -/
def FileTree.resolve (t : FileTree) (path : Path) : Option (List Path) :=
  if path = [] then none else (components path).foldlM t.step []

/-- The names in a directory. -/
def FileTree.names (t : FileTree) (here : List Path) : List Path :=
  (t.files.map Prod.fst).filterMap fun file =>
    if file.dropLast = here then file.getLast? else none

/-- The system as it is for a file tree, with a kernel to set watches. -/
def FileTree.system {κ : Type} (t : FileTree) (inotifyAddWatch : Path → κ → Int × κ)
    (inotifyRmWatch : Int → κ → κ) : System κ :=
  { inotifyAddWatch
    inotifyRmWatch
    stat := fun path => (t.resolve path).bind t.type
    opendir := fun path => (t.resolve path).bind fun here =>
      if t.type here = some .dir then some ([dot] :: [dot, dot] :: t.names here) else none }

/-- What is asked of a file system without links: names do not repeat and have
    no slash, only directories can be opened, and below every directory there is
    an end. -/
structure Tree {κ : Type} (sys : System κ) : Prop where
  nodup : ∀ q files, sys.opendir q = some files → files.Nodup
  named : ∀ q files, sys.opendir q = some files → ∀ file ∈ files, slash ∉ file
  opened : ∀ q files, sys.opendir q = some files → sys.isDir q = true
  finite : ∃ height : Path → Nat, ∀ q files, sys.opendir q = some files → ∀ file ∈ files,
    hidden file = false → sys.isDir (below q file) = true → height (below q file) < height q

theorem components_ne_nil (path : Path) : components path ≠ [] := by
  cases path with
  | nil => exact List.cons_ne_nil _ _
  | cons c path =>
      rw [components]
      by_cases hc : c = slash
      · rw [if_pos hc]
        exact List.cons_ne_nil _ _
      · rw [if_neg hc]
        cases components path with
        | nil => exact List.cons_ne_nil _ _
        | cons name names => exact List.cons_ne_nil _ _

theorem components_name {name : Path} (h : slash ∉ name) : components name = [name] := by
  induction name with
  | nil => rfl
  | cons c name ih =>
      have hc : c ≠ slash := fun hc => h (List.mem_cons.mpr (Or.inl hc.symm))
      rw [components, if_neg hc, ih fun hmem => h (List.mem_cons_of_mem _ hmem)]

/-- The name behind the last slash is the last name. -/
theorem components_below (q : Path) {file : Path} (h : slash ∉ file) :
    components (below q file) = components q ++ [file] := by
  unfold below
  induction q with
  | nil =>
      have hslash : components (slash :: file) = [] :: components file := if_pos rfl
      rw [List.nil_append, hslash, components_name h]
      rfl
  | cons c q ih =>
      rw [List.cons_append, components, components, ih]
      by_cases hc : c = slash
      · rw [if_pos hc, if_pos hc]
        rfl
      · rw [if_neg hc, if_neg hc]
        cases hq : components q with
        | nil => exact absurd hq (components_ne_nil q)
        | cons name names => rfl

variable {t : FileTree}

theorem resolve_below {q : Path} (hq : q ≠ []) {file : Path} (h : slash ∉ file) :
    t.resolve (below q file) = (t.resolve q).bind fun here => t.step here file := by
  have hne : below q file ≠ [] := List.append_ne_nil_of_left_ne_nil hq _
  unfold FileTree.resolve
  rw [if_neg hq, if_neg hne, components_below q h, List.foldlM_append]
  cases (components q).foldlM t.step [] with
  | none => rfl
  | some here =>
      change (([file] : List Path).foldlM t.step here) = t.step here file
      rw [List.foldlM_cons]
      cases t.step here file with
      | none => rfl
      | some next => rfl

/-- What is found is not found under the empty path. -/
theorem ne_nil_of_resolve {q : Path} {here : List Path} (h : t.resolve q = some here) : q ≠ [] := by
  rintro rfl
  cases h

theorem mem_names {here : List Path} {file : Path} :
    file ∈ t.names here ↔ here ++ [file] ∈ t.files.map Prod.fst := by
  rw [FileTree.names, List.mem_filterMap]
  constructor
  · rintro ⟨names, hmem, hfile⟩
    rw [Option.ite_none_right_eq_some] at hfile
    rcases hfile with ⟨rfl, hlast⟩
    rwa [List.dropLast_append_getLast? file hlast]
  · intro hmem
    refine ⟨_, hmem, ?_⟩
    rw [List.dropLast_concat, if_pos rfl, List.getLast?_concat]

theorem names_nodup (here : List Path) : (t.names here).Nodup := by
  refine t.nodup.filterMap fun names names' file hfile hfile' => ?_
  rw [Option.mem_def, Option.ite_none_right_eq_some] at hfile hfile'
  -- Both are the directory's names with this one behind.
  rw [← List.dropLast_append_getLast? file hfile.2, hfile.1,
    ← List.dropLast_append_getLast? file hfile'.2, hfile'.1]

theorem name_spec {here : List Path} {file : Path} (h : file ∈ t.names here) :
    file ≠ [] ∧ file ≠ [dot] ∧ file ≠ [dot, dot] ∧ slash ∉ file := by
  rcases List.mem_map.mp (mem_names.mp h) with ⟨⟨_, type⟩, hmem, rfl⟩
  exact t.named _ hmem file (List.mem_append_right _ (List.mem_singleton_self file))

/-- An entry of a directory is one name further than the directory. -/
theorem step_name {here next : List Path} {file : Path} (h : file ∈ t.names here)
    (hstep : t.step here file = some next) : next = here ++ [file] := by
  rcases name_spec h with ⟨hempty, hdot, hdots, _⟩
  unfold FileTree.step at hstep
  rw [Option.ite_none_right_eq_some, if_neg (not_or.mpr ⟨hempty, hdot⟩), if_neg hdots,
    Option.ite_none_right_eq_some, Option.some.injEq] at hstep
  exact hstep.2.2.symm

section

variable {κ : Type} {inotifyAddWatch : Path → κ → Int × κ} {inotifyRmWatch : Int → κ → κ}

/-- What can be opened is a directory, and is seen with its two dots. -/
theorem opendir_spec {q : Path} {files : List Path}
    (h : (t.system inotifyAddWatch inotifyRmWatch).opendir q = some files) :
    ∃ here, t.resolve q = some here ∧ t.type here = some .dir ∧
      files = [dot] :: [dot, dot] :: t.names here := by
  simp only [FileTree.system, Option.bind_eq_some_iff, Option.ite_none_right_eq_some,
    Option.some.injEq] at h
  rcases h with ⟨here, hresolve, hdir, rfl⟩
  exact ⟨here, hresolve, hdir, rfl⟩

theorem isDir_iff {q : Path} :
    (t.system inotifyAddWatch inotifyRmWatch).isDir q = true ↔
      ∃ here, t.resolve q = some here ∧ t.type here = some .dir := by
  simp only [System.isDir, FileTree.system, decide_eq_true_eq, Option.bind_eq_some_iff]

/-- What is a directory can be opened. -/
theorem opendir_of_isDir {q : Path}
    (h : (t.system inotifyAddWatch inotifyRmWatch).isDir q = true) :
    ∃ files, (t.system inotifyAddWatch inotifyRmWatch).opendir q = some files := by
  rcases isDir_iff.mp h with ⟨here, hresolve, hdir⟩
  refine ⟨[dot] :: [dot, dot] :: t.names here, ?_⟩
  simp only [FileTree.system, hresolve, Option.bind_some, if_pos hdir]

/-- Whatever the kernel does, a file tree is a tree. -/
theorem fileTree_tree : Tree (t.system inotifyAddWatch inotifyRmWatch) := by
  constructor
  · intro q files h
    rcases opendir_spec h with ⟨here, _, _, rfl⟩
    have hdot : [dot] ∉ t.names here := fun hmem => (name_spec hmem).2.1 rfl
    have hdots : [dot, dot] ∉ t.names here := fun hmem => (name_spec hmem).2.2.1 rfl
    refine List.nodup_cons.mpr ⟨fun hmem => ?_, List.nodup_cons.mpr ⟨hdots, names_nodup here⟩⟩
    rcases List.mem_cons.mp hmem with heq | hmem
    · exact absurd heq (by decide)
    · exact hdot hmem
  · intro q files h file hfile
    rcases opendir_spec h with ⟨here, _, _, rfl⟩
    rcases List.mem_cons.mp hfile with rfl | hfile
    · decide
    rcases List.mem_cons.mp hfile with rfl | hfile
    · decide
    · exact (name_spec hfile).2.2.2
  · intro q files h
    rcases opendir_spec h with ⟨here, hresolve, hdir, _⟩
    exact isDir_iff.mpr ⟨here, hresolve, hdir⟩
  · -- How far a directory is from the deepest name there is.
    refine ⟨fun q => (t.resolve q).elim 0 fun here =>
      (t.files.map fun file => file.1.length).sum + 1 - here.length, ?_⟩
    intro q files h file hfile hvisible hdir
    rcases opendir_spec h with ⟨here, hresolve, _, rfl⟩
    have hname : file ∈ t.names here := by
      rcases List.mem_cons.mp hfile with rfl | hfile
      · cases hvisible
      rcases List.mem_cons.mp hfile with rfl | hfile
      · cases hvisible
      · exact hfile
    have hbelow : t.resolve (below q file) = some (here ++ [file]) := by
      rcases isDir_iff.mp hdir with ⟨next, hnext, _⟩
      have hstep := hnext
      rw [resolve_below (ne_nil_of_resolve hresolve) (name_spec hname).2.2.2, hresolve,
        Option.bind_some] at hstep
      rw [hnext, step_name hname hstep]
    have hle : (here ++ [file]).length ≤ (t.files.map fun file => file.1.length).sum := by
      rcases List.mem_map.mp (mem_names.mp hname) with ⟨entry, hentry, heq⟩
      refine List.le_sum_of_mem (List.mem_map.mpr ⟨entry, hentry, ?_⟩)
      rw [heq]
    rw [List.length_append, List.length_singleton] at hle
    simp only [hbelow, hresolve, Option.elim_some, List.length_append, List.length_singleton]
    omega

end

end InotifyDevice

end Input

end ZeusOS
