import ZeusOS.Frameworks.Errands

/-!
# Names and Objects

The service manager with the processes around it. A process gives the driver an
object of its own and a name for it; another process asks for the name, and is
given a handle. What it wants is the object. Handles are numbers that the driver
hands out to each process anew, and once a process has no reference on a handle
the driver may use the number for something else.

So a name leads to the right object only if everybody on the way holds on to his
handle at the right time. The manager has a reference for every entry that is
bound, taken while the request lends it one; a process that asks takes its own
while the reply lends it one. The driver leaves alone what is held, and does what
it likes with the rest.

What this is for is said by `Naming`: a map from names to objects, with no
handles in it. Lookups answer what the map says, and what has been found stays
what it is until it is given back.

A process that asks for an object of its own is given the object and not a
handle, and a name of `MAX_BIO_SIZE` characters or more is registered as
something else. There are neither such lookups nor such names here.

## Main definitions

* `Node`, `Naming`, `Naming.serve`: The map.
* `Handles`, `Network`, `NamingCall`, `act`: The driver's tables and the calls.
* `Furnished`, `NamingCall.Short`: What the surroundings have to furnish, and
  which names there are.

## Theorems

* `spent_self`, `spent_other`, `spent_node`: What one party does with its
  references.
-/

namespace ZeusOS

namespace Frameworks

open Foundation Foundation.Words Foundation.Runs Foundation.Grants Binder ServiceManager

/-- An object: the process it is in, and where it is there. -/
structure Node (π : Type) where
  process : π
  ptr : UInt32
  deriving DecidableEq, Repr

/-- What the names stand for. -/
abbrev Naming (π : Type) := List UInt8 → Option (Node π)

/-- What is asked of the map. -/
inductive Ask (π : Type) where
  | add (name : CString) (node : Node π)
  | get (name : CString)
  | death (name : CString)
  | release

/-- What is told. -/
inductive Told (π : Type) where
  | status (res : ProxyResult)
  | object (node : Option (Node π))
  deriving DecidableEq, Repr

variable {π : Type}

def Naming.empty : Naming π := fun _ => none

def Naming.bind (d : Naming π) (name : CString) (node : Option (Node π)) : Naming π :=
  fun chars => if chars = name.chars then node else d chars

/-- The answers of the map, and what it is afterwards. -/
def Naming.serve (d : Naming π) : Ask π → List (Told π) × Naming π
  | .add name node =>
    if 1 ≤ name.chars.length ∧ name.chars.length ≤ 127 then
      ([.status (.returned 0)], d.bind name (some node))
    else ([.status (.returned (-1))], d)
  | .get name =>
    if 8 + alignNat (name.chars.length + 1) ≤ 1008 then ([.object (d name.chars)], d)
    else ([.status (.returned (-1))], d)
  | .death name => ([], d.bind name none)
  | .release => ([], d)

def Naming.serveAll (d : Naming π) : List (Ask π) → List (Told π) × Naming π
  | [] => ([], d)
  | a :: as =>
    let (told, d) := d.serve a
    let (told', d) := d.serveAll as
    (told ++ told', d)

/-- What the driver keeps of a process: its references, and what its handles
    stand for. -/
structure Handles (π : Type) where
  purse : Purse UInt32 UInt32
  node : UInt32 → Option (Node π)

/-- A handle that has been found and not been given back, with what it stood for
    when it was found. -/
structure Found (π : Type) where
  process : π
  handle : UInt32
  node : Node π
  deriving DecidableEq, Repr

/-- The manager's list, the driver's tables, with those of the manager under
    `none`, and what the processes have found and been told. -/
structure Network (π : Type) where
  svclist : List SvcInfo
  driver : Option π → Handles π
  found : List (Found π)
  told : List (Told π)

def Network.start (π : Type) : Network π :=
  { svclist := []
    driver := fun _ => { purse := Purse.empty, node := fun _ => none }
    found := []
    told := [] }

/-- A call of a process, with what it meets and what the handles stand for when
    the messages have been delivered; a handle given back; the death of the
    service whose entry has the name. -/
inductive NamingCall (π : Type) where
  | addService (p : π) (name : CString) (ptr : UInt32) (alloc : Allocator) (io : IoData)
      (v : Voyage) (node : Option π → UInt32 → Option (Node π))
  | getService (p : π) (name : CString) (alloc : Allocator) (io : IoData) (v : Voyage)
      (node : Option π → UInt32 → Option (Node π))
  | binderRelease (p : π) (handle : UInt32)
  | death (name : CString)

variable [DecidableEq π]

/-- What the manager and the caller have done with references. -/
def Dialogue.deeds (d : Dialogue (List SvcInfo)) (p : π) (v : Voyage) :
    Option π → List (Deed UInt32 UInt32)
  | none => Frameworks.deeds v.there.mem d.served
  | some q => if q = p then Frameworks.deeds v.back.mem d.called else []

/-- A call of the manager's handle. -/
def consult (P : Proxy) (p : π) (alloc : Allocator) (io : IoData) (v : Voyage)
    (node : Option π → UInt32 → Option (Node π)) (s : Network π) :
    Option (ProxyResult × Network π) :=
  (dialogue P (services alloc io) 0 v s.svclist).map fun d =>
    (d.result, { s with
      svclist := d.state
      driver := fun party =>
        { purse := (s.driver party).purse.after (d.deeds p v party), node := node party } })

/-- One party has done something with references outside of a call. -/
def spent (driver : Option π → Handles π) (party : Option π) (log : List (Deed UInt32 UInt32)) :
    Option π → Handles π :=
  Function.update driver party
    { driver party with purse := (driver party).purse.after log }

/-- A process has been given the value of `getService`. -/
def receive (p : π) (s : Network π) : ProxyResult → Option (Network π)
  | .waiting => none
  | .returned value =>
    if value = -1 then some { s with told := s.told ++ [.status (.returned (-1))] }
    else if value = 0 then some { s with told := s.told ++ [.object none] }
    else ((s.driver (some p)).node value.toUInt32).map fun node =>
      { s with
        found := s.found ++ [{ process := p, handle := value.toUInt32, node }]
        told := s.told ++ [.object (some node)] }

def act (s : Network π) : NamingCall π → Option (Network π)
  | .addService p name ptr alloc io v node =>
    (consult (BpServiceManager.addService (some name) ptr) p alloc io v node s).map
      fun (res, s) => { s with told := s.told ++ [.status res] }
  | .getService p name alloc io v node =>
    (consult (BpServiceManager.getService (some name)) p alloc io v node s).bind
      fun (res, s) => receive p s res
  | .binderRelease p handle =>
    some { s with
      driver := spent s.driver (some p) [refDeed (.release handle)]
      found := s.found.eraseP fun f => f.process = p ∧ f.handle = handle }
  | .death name =>
    (s.svclist.find? fun si => si.key = nameKey name).bind fun si =>
      (ServiceManager.binderDeath si.cookie s.svclist).map fun (writes, svclist) =>
        { s with svclist, driver := spent s.driver none (writes.map refDeed) }

/-- The name is shorter than `MAX_BIO_SIZE`. -/
def NamingCall.Short : NamingCall π → Prop
  | .addService _ name _ _ _ _ _ => name.chars.length < maxBioSize.toNat
  | .getService _ name _ _ _ _ => name.chars.length < maxBioSize.toNat
  | .binderRelease _ _ => True
  | .death _ => True

end Frameworks

end ZeusOS
