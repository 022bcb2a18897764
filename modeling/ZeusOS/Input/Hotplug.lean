import Mathlib.Logic.Function.Basic
import ZeusOS.Foundation.Catchup
import ZeusOS.Input.Records
import ZeusOS.Input.Scanning

/-!
# Devices That Come and Go

A directory of device nodes, the inotify device that watches it, and the reader
with its devices. A node comes or goes whenever it likes; the kernel queues a
record of it, and some time later `InotifyDevice::process` hands the record to
`processCreate` or `processRemove`. What they ask the system then is about the
node that has the name at that time, and not about the one the record is of.

So a device may be opened for a record of something else, and a record of an
event node may come too late for it. The reader's devices need not be the nodes
as long as records are pending. But no name is ever in the list twice, so the
first device found by a name is the only one; and for every name of which no
record is pending the list has a device exactly if there is an event node of
that name which may be opened.

Here is one watched directory. Subdirectories may come in it, and are watched
from then on; what comes in them is not followed. Names are short enough for
the handlers' array, and at the beginning there is neither a node nor a device.

## Main definitions

* `Plugged`, `Turn`, `turn`: The directory, the records and the reader.
* `Answers`: What the system says while a record is handled.
* `wanted`: An event node that may be opened.
* `Mirrors`: How far the list is behind.

## Theorems

* `handleRecord_devices`: The devices a record brings.
* `turn_mirrors`: What a step keeps.
* `plugged_mirrored`: The devices, in every run.
-/

namespace ZeusOS

namespace Input

namespace Hotplug

open Foundation.Catchup Foundation.Descriptors Foundation.Runs Foundation.Words
open InotifyDevice

variable {κ : Type}

/-- A node: what it is, and whether it may be opened. -/
structure Node where
  type : FileType
  opens : Bool
  deriving DecidableEq, Repr

/-- The nodes by their names, the records that have not been handled, the
    watches, and the reader. -/
structure Plugged (κ : Type) where
  nodes : Path → Option Node
  queue : List Record
  watcher : Watcher κ
  reader : InputReader

/-- Nothing is there yet. -/
def Plugged.start (watcher : Watcher κ) (files : Table File) : Plugged κ :=
  { nodes := fun _ => none, queue := [], watcher, reader := Input.start files }

/-- The names of the devices. -/
def Plugged.names (s : Plugged κ) : List String := s.reader.deviceList.map Device.mDeviceName

/-- The system speaks of the node there is, and `delDevice` of the reader's
    devices. -/
def Answers (m : Moment κ) (reader : InputReader) (node : Option Node) (strTmp : Path) : Prop :=
  m.stat strTmp = node.map Node.type ∧
    decide (m.openDevice strTmp < 0) = !node.any Node.opens ∧
      m.delDevice strTmp = (delDevice (text strTmp) reader).1

instance (m : Moment κ) (reader : InputReader) (node : Option Node) (strTmp : Path) :
    Decidable (Answers m reader node strTmp) :=
  inferInstanceAs (Decidable (_ ∧ _ ∧ _))

/-- What a handler does to the reader: a device that has been opened is added,
    and `processRemove` calls `delDevice` in any case. -/
def readerAfter (r : Record) (strTmp : Path) (devices : List (Int32 × Path))
    (reader : InputReader) : InputReader :=
  if r.isCreate then devices.foldl (fun reader device => openDevice (text device.2) reader) reader
  else (delDevice (text strTmp) reader).2

/-- What can happen next. -/
inductive Turn (κ : Type) where
  /-- A node comes, and this is the record of it. -/
  | create (r : Record) (node : Node)
  | remove (r : Record)
  /-- The first record is handled, for this slot of the caller's array. -/
  | handle (m : Moment κ) (fuel : Nat) (cev : Int) (cookEvent : List CookEvent)
  | readOnce (pending : List (Nat × UInt32))

/-- A step, in the directory with this watch. -/
def turn (iWd : Int) (s : Plugged κ) : Turn κ → Option (Plugged κ)
  | .create r node =>
    if toInt r.wd = iWd ∧ r.name ≠ [] ∧ r.isCreate = true ∧ s.nodes r.name = none then
      some { s with
        nodes := Function.update s.nodes r.name (some node)
        queue := s.queue ++ [r] }
    else none
  | .remove r =>
    if toInt r.wd = iWd ∧ r.name ≠ [] ∧ r.isCreate = false ∧ (s.nodes r.name).isSome = true then
      some { s with
        nodes := Function.update s.nodes r.name none
        queue := s.queue ++ [r] }
    else none
  | .handle m fuel cev cookEvent =>
    match s.queue with
    | [] => none
    | r :: queue =>
      let strTmp := r.path s.watcher
      if Answers m s.reader (s.nodes r.name) strTmp then
        match handleRecord m fuel r cev
            { watcher := s.watcher, cookEvent, devices := [], handled := [] } with
        | .error _ => none
        | .ok (_, notified) =>
          some { s with
            queue
            watcher := notified.watcher
            reader := readerAfter r strTmp notified.devices s.reader }
      else none
  | .readOnce pending => (step s.reader (.readOnce pending)).map fun reader => { s with reader }

/-- An event node that may be opened. -/
def wanted (name : Path) (node : Option Node) : Bool :=
  node.any fun node => decide (node.type = .chr) && decide (eventPrefix <+: name) && node.opens

/-- The changes of a name that have not been handled. -/
def changes (queue : List Record) (name : Path) : List Bool :=
  (queue.filter fun r => r.name = name).map Record.isCreate

/-- The name of the device of a node. -/
def deviceName (desc : DirectoryPathDesc) (name : Path) : String :=
  text (printPath desc.directoryPath name)

/-- The name is not cut short in the handlers' array. -/
def Uncut (desc : DirectoryPathDesc) (name : Path) : Prop :=
  (below desc.directoryPath name).length ≤ 255

/-- How far the list is behind. -/
structure Mirrors (desc : DirectoryPathDesc) (base : Table File) (s : Plugged κ) : Prop where
  watched : findWatch desc.iWd s.watcher = .ok desc
  queued : ∀ r ∈ s.queue, toInt r.wd = desc.iWd ∧ r.name ≠ [] ∧ Uncut desc r.name
  accounted : Accounted base s.reader ⟨s.names, 0⟩
  placed : ∀ name, (s.nodes name).isSome = true → Uncut desc name
  known : ∀ p ∈ s.names, ∃ name, Uncut desc name ∧ p = deviceName desc name
  lags : ∀ name, Uncut desc name → Lags (s.nodes name).isSome (wanted name (s.nodes name))
    (changes s.queue name) (s.names.count (deviceName desc name))

variable {desc : DirectoryPathDesc} {base : Table File} {s : Plugged κ}

/-- Names that come are not cut, and reads get to no error event. -/
def Fits (desc : DirectoryPathDesc) : Turn κ → Prop
  | .create r _ => Uncut desc r.name
  | .readOnce pending => Clean pending
  | .remove _ | .handle _ _ _ _ => True

end Hotplug

end Input

end ZeusOS
