import Mathlib.Data.List.Basic

/-!
# Descriptor Tables

The table in which a process finds its open files by small numbers. A new file
takes the lowest number that is free, and closing frees a number for the next
one. A number is thus no identity: what it stands for changes when it has been
closed and given out again. Whoever remembers a number and not the file
depends on nobody else closing it.

The files are any type. `get` is total, so that a number outside the table
stands for nothing, like a closed one.

## Main definitions

* `Table`, `get`: A table and what a number stands for.
* `lowestFree`, `openFile`, `close`: What the system does with it.
* `openCount`: How many files are open.

## Theorems

* `get_lowestFree`: The number given out stood for nothing.
* `get_openFile`, `get_close`: Only one number changes.
* `openCount_openFile`, `openCount_close`: What opening and closing count for.
-/

namespace Foundation

namespace Descriptors

variable {φ : Type}

/-- The open files by number. -/
abbrev Table (φ : Type) := List (Option φ)

/-- The file a number stands for. -/
def get (t : Table φ) (fd : Nat) : Option φ := (t[fd]?).join

/-- The number the next file gets. -/
def lowestFree : Table φ → Nat
  | [] => 0
  | none :: _ => 0
  | some _ :: t => lowestFree t + 1

/-- Give a file the lowest free number. -/
def openFile (f : φ) : Table φ → Table φ
  | [] => [some f]
  | none :: t => some f :: t
  | some g :: t => some g :: openFile f t

/-- Free a number. -/
def close (t : Table φ) (fd : Nat) : Table φ := t.set fd none

-- Walking over the open numbers ends at the first free one, or behind the table.
theorem get_lowestFree (t : Table φ) : get t (lowestFree t) = none := by
  induction t with
  | nil => rfl
  | cons g t ih =>
      cases g with
      | none => rfl
      | some g => exact ih

theorem get_openFile (f : φ) (t : Table φ) (fd : Nat) :
    get (openFile f t) fd = if fd = lowestFree t then some f else get t fd := by
  induction t generalizing fd with
  | nil =>
      cases fd with
      | zero => rfl
      | succ fd => rfl
  | cons g t ih =>
      -- The first free number is taken; an open one is passed over.
      cases g with
      | none =>
          cases fd with
          | zero => rfl
          | succ fd => exact (if_neg (Nat.succ_ne_zero fd)).symm
      | some g =>
          cases fd with
          | zero => exact (if_neg (Nat.succ_ne_zero _).symm).symm
          | succ fd =>
              -- Behind an open number everything is shifted by one.
              have hsucc : get (openFile f (some g :: t)) (fd + 1) = get (openFile f t) fd := rfl
              rw [hsucc, ih, lowestFree]
              by_cases hfd : fd = lowestFree t
              · rw [if_pos hfd, if_pos (congrArg Nat.succ hfd)]
              · rw [if_neg hfd, if_neg (fun h => hfd (Nat.succ.inj h))]
                rfl

theorem get_close (t : Table φ) (fd fd' : Nat) :
    get (close t fd) fd' = if fd' = fd then none else get t fd' := by
  unfold get close
  rw [List.getElem?_set]
  by_cases hfd : fd' = fd
  · subst hfd
    rw [if_pos rfl, if_pos rfl]
    -- The table keeps its length, so the number must be one of it to be written at all.
    by_cases hlt : fd' < t.length
    · rw [if_pos hlt]
      rfl
    -- Beyond the table a number was free already.
    · rw [if_neg hlt]
      rfl
  · rw [if_neg hfd, if_neg (Ne.symm hfd)]

/-- How many numbers stand for a file. -/
def openCount (t : Table φ) : Nat := t.countP Option.isSome

theorem openCount_cons (g : Option φ) (t : Table φ) :
    openCount (g :: t) = openCount t + if g.isSome then 1 else 0 := List.countP_cons

theorem openCount_openFile (f : φ) (t : Table φ) :
    openCount (openFile f t) = openCount t + 1 := by
  induction t with
  | nil => rfl
  | cons g t ih =>
      cases g with
      | none =>
          have hfree : openFile f (none :: t) = some f :: t := rfl
          simp [hfree, openCount_cons]
      | some g =>
          have hopen : openFile f (some g :: t) = some g :: openFile f t := rfl
          simp [hopen, openCount_cons, ih]

/-- Closing an open number leaves one file less. -/
theorem openCount_close {t : Table φ} {fd : Nat} (h : get t fd ≠ none) :
    openCount (close t fd) + 1 = openCount t := by
  induction t generalizing fd with
  | nil => exact absurd rfl h
  | cons g t ih =>
      cases fd with
      | zero =>
          cases g with
          | none => exact absurd rfl h
          | some g =>
              have hclose : close (some g :: t) 0 = none :: t := rfl
              simp [hclose, openCount_cons]
      | succ fd =>
          have hrest := ih h
          have hclose : close (g :: t) (fd + 1) = g :: close t fd := rfl
          rw [hclose, openCount_cons, openCount_cons]
          omega

end Descriptors

end Foundation
