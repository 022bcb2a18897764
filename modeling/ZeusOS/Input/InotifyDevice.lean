import ZeusOS.Foundation.Words
import ZeusOS.Input.EventDevice

/-!
# The Inotify Device

`InotifyDevice`: the list of watched directories, the functions that add
directories to it and take them out, one by one or with everything below them,
and `process`, which reads the events of those directories.

A path is a string of bytes, none of them zero. Longer paths are made of
shorter ones in a buffer of 256 bytes by `snprintf`, which cuts off what does
not fit. What a path stands for is for the file system to say: `stat` and
`opendir` are the system's, as are the calls that set watches and end them, and
so they are parameters. The recursive functions follow what the system says and
need not end, so they are given fuel, which bounds the depth of the recursion.

The events are records of different lengths, read as bytes into a buffer of 512.
The slot that the handlers write to is found anew after every record, by
adding up what they returned, and that may be minus one. So the slot is a
signed number here, and writing one that is not in the array is a fault. So is
following the iterator of a search that has come to the end of the list.

## Main definitions

* `System`, `Moment`: What the functions ask of the system.
* `Watcher`: The list, and the watches in the kernel.
* `addWatchDirectory`, `delWatchDirectory`: One directory.
* `addWatchDirectory_R`, `delWatchDirectory_R`: A directory and what is below.
* `processCreate`, `processRemove`, `process`: The events.
-/

namespace ZeusOS

namespace Input

namespace InotifyDevice

open Foundation.Words

/-- A C string, less the zero at its end. -/
abbrev Path := List UInt8

def slash : UInt8 := 0x2f
def dot : UInt8 := 0x2e

/-- The full path of an entry of a directory. -/
def below (directoryPath file : Path) : Path := directoryPath ++ slash :: file

/-- `snprintf(strTmp, 256, "%s/%s", ..)`. -/
def printPath (directoryPath file : Path) : Path := (below directoryPath file).take 255

/-- `strncmp(file->d_name, ".", 1) == 0`. -/
def hidden (file : Path) : Bool := file.head? = some dot

/-- The file type bits of `st_mode`, as far as they are told apart. -/
inductive FileType where
  | reg | dir | chr | blk | other
  deriving DecidableEq, Repr

/-- What the device asks of the system about files and watches. `stat` says
    what a path leads to, if anything; `opendir` fails or gives the names in the
    order `readdir` will. -/
structure System (κ : Type) where
  inotifyAddWatch : Path → κ → Int × κ
  inotifyRmWatch : Int → κ → κ
  stat : Path → Option FileType
  opendir : Path → Option (List Path)

section

variable {κ : Type} (sys : System κ)

def System.isRegFile (strFilePath : Path) : Bool := sys.stat strFilePath = some .reg

def System.isDir (strFilePath : Path) : Bool := sys.stat strFilePath = some .dir

def System.isCharDevice (strFilePath : Path) : Bool := sys.stat strFilePath = some .chr

def System.isBlkDevice (strFilePath : Path) : Bool := sys.stat strFilePath = some .blk

/-- `struct DirectoryPathDesc`. -/
structure DirectoryPathDesc where
  iWd : Int
  directoryPath : Path
  deriving DecidableEq, Repr

/-- The list, the kernel's side of it, and the descriptors `inotify_rm_watch`
    has been called with. -/
structure Watcher (κ : Type) where
  kernel : κ
  directoryPathDescList : List DirectoryPathDesc
  removed : List Int
  deriving DecidableEq, Repr

def addWatchDirectory (directoryPath : Path) (w : Watcher κ) : Int32 × Watcher κ :=
  let (iWd, kernel) := sys.inotifyAddWatch directoryPath w.kernel
  if iWd < 0 then (-1, { w with kernel })
  else (0, { w with
    kernel
    directoryPathDescList := w.directoryPathDescList ++ [⟨iWd, directoryPath⟩] })

/-- The search of both functions that delete. -/
def findPath (directoryPath : Path) (w : Watcher κ) : Option DirectoryPathDesc :=
  w.directoryPathDescList.find? fun desc => desc.directoryPath = directoryPath

/-- `delWatchDirectory`, which returns zero in any case. -/
def delWatchDirectory (directoryPath : Path) (w : Watcher κ) : Watcher κ :=
  match findPath directoryPath w with
  | none => w
  | some tmp =>
    { kernel := sys.inotifyRmWatch tmp.iWd w.kernel
      directoryPathDescList :=
        w.directoryPathDescList.eraseP fun desc => desc.directoryPath = directoryPath
      removed := w.removed ++ [tmp.iWd] }

/-- The loop of the recursive functions over the entries of a directory. -/
def eachDirectory (recurse : Path → Watcher κ → Option (Watcher κ)) (directoryPath : Path) :
    List Path → Watcher κ → Option (Watcher κ)
  | [], w => some w
  | file :: files, w =>
    if hidden file then eachDirectory recurse directoryPath files w
    else
      let strTmp := printPath directoryPath file
      if sys.isDir strTmp then
        (recurse strTmp w).bind (eachDirectory recurse directoryPath files)
      else eachDirectory recurse directoryPath files w

/-- `addWatchDirectory_R`, which begins as `addWatchDirectory` does. -/
def addWatchDirectory_R : Nat → Path → Watcher κ → Option (Int32 × Watcher κ)
  | 0, _, _ => none
  | fuel + 1, directoryPath, w =>
    let (iRet, w) := addWatchDirectory sys directoryPath w
    if iRet = -1 then some (-1, w)
    else match sys.opendir directoryPath with
      | none => some (-1, w)
      | some files =>
        (eachDirectory sys (fun strTmp w => (addWatchDirectory_R fuel strTmp w).map Prod.snd)
          directoryPath files w).map fun w => (0, w)

/-- `delWatchDirectory_R`, which begins as `delWatchDirectory` does and goes on
    only if that has found something. -/
def delWatchDirectory_R : Nat → Path → Watcher κ → Option (Int32 × Watcher κ)
  | 0, _, _ => none
  | fuel + 1, directoryPath, w =>
    if findPath directoryPath w = none then some (0, w)
    else
      let w := delWatchDirectory sys directoryPath w
      match sys.opendir directoryPath with
      | none => some (-1, w)
      | some files =>
        (eachDirectory sys (fun strTmp w => (delWatchDirectory_R fuel strTmp w).map Prod.snd)
          directoryPath files w).map fun w => (0, w)

/-- What the system says while one event is handled: besides what it says about
    files and watches, what `open` and `delDevice` return for a path, what time
    it is, and where the handler's `strTmp` is. -/
structure Moment (κ : Type) extends System κ where
  openDevice : Path → Int32
  delDevice : Path → Int32
  now : Timeval
  strTmp : UInt32

/-- Why there may be no result. -/
inductive Fault where
  /-- The iterator of a search that has come to the end is followed. -/
  | atEnd
  /-- A slot that is not in the array is written, or a byte that was not read is
      looked at. -/
  | outside
  /-- The recursion is deeper than the fuel. -/
  | endless
  deriving DecidableEq, Repr

/-- A call of one of the two handlers. -/
inductive Handling where
  | processCreate (iWd : Int) (fileName : Path)
  | processRemove (iWd : Int) (fileName : Path)
  deriving DecidableEq, Repr

/-- What handling events changes: the watches, the caller's array, and the
    devices that were handed to the reader. Besides, the handlers' calls. -/
structure Notified (κ : Type) where
  watcher : Watcher κ
  cookEvent : List CookEvent
  devices : List (Int32 × Path)
  handled : List Handling

def EventType.addFile : Int32 := 4
def EventType.delFile : Int32 := 8
def EventType.addDir : Int32 := 16
def EventType.delDir : Int32 := 32
def EventType.addDevice : Int32 := 64
def EventType.delDevice : Int32 := 128

/-- `"event"` and `"/dev/"`. -/
def eventPrefix : Path := [0x65, 0x76, 0x65, 0x6e, 0x74]
def devPrefix : Path := [0x2f, 0x64, 0x65, 0x76, 0x2f]

/-- The fields of a slot that the handlers set. -/
def cook (m : Moment κ) (iType : Int32) (cev : CookEvent) : CookEvent :=
  { cev with iType, tTime := m.now, filePath := m.strTmp }

/-- Set the fields of the slot `cev` points at. -/
def Notified.write (s : Notified κ) (m : Moment κ) (cev : Int) (iType : Int32) :
    Except Fault (Notified κ) :=
  if 0 ≤ cev ∧ cev < s.cookEvent.length then
    .ok { s with cookEvent := s.cookEvent.modify cev.toNat (cook m iType) }
  else .error .outside

/-- The search of both handlers. -/
def findWatch (iWd : Int) (w : Watcher κ) : Except Fault DirectoryPathDesc :=
  match w.directoryPathDescList.find? fun desc => desc.iWd = iWd with
  | some desc => .ok desc
  | none => .error .atEnd

/-- `processCreate`, after the search. The event is written before a device is
    opened, and stays where it is if that fails. -/
def created (m : Moment κ) (fuel : Nat) (strTmp fileName : Path) (cev : Int) (s : Notified κ) :
    Except Fault (Int × Notified κ) :=
  if m.isDir strTmp then
    (s.write m cev EventType.addDir).bind fun s =>
      match addWatchDirectory_R m.toSystem fuel strTmp s.watcher with
      | none => .error .endless
      | some (_, watcher) => .ok (1, { s with watcher })
  else if m.isRegFile strTmp then (s.write m cev EventType.addFile).map fun s => (1, s)
  else if m.isCharDevice strTmp then
    (s.write m cev EventType.addDevice).map fun s =>
      if eventPrefix <+: fileName then
        if m.openDevice strTmp < 0 then (-1, s)
        else (1, { s with devices := s.devices ++ [(m.openDevice strTmp, strTmp)] })
      else (1, s)
  else if m.isBlkDevice strTmp then (s.write m cev EventType.addDevice).map fun s => (1, s)
  else .ok (0, s)

def processCreate (m : Moment κ) (fuel : Nat) (iWd : Int) (fileName : Path) (cev : Int)
    (s : Notified κ) : Except Fault (Int × Notified κ) :=
  (findWatch iWd s.watcher).bind fun desc =>
    created m fuel (printPath desc.directoryPath fileName) fileName cev
      { s with handled := s.handled ++ [.processCreate iWd fileName] }

/-- The type of event `processRemove` makes of a path. -/
def removeType (m : Moment κ) (strTmp : Path) : Int32 :=
  if m.delDevice strTmp = 0 then EventType.delDevice
  else if devPrefix <+: strTmp then EventType.delDevice
  else EventType.delFile ||| EventType.delDir

def processRemove (m : Moment κ) (iWd : Int) (fileName : Path) (cev : Int) (s : Notified κ) :
    Except Fault (Int × Notified κ) :=
  (findWatch iWd s.watcher).bind fun desc =>
    let s : Notified κ := { s with handled := s.handled ++ [.processRemove iWd fileName] }
    (s.write m cev (removeType m (printPath desc.directoryPath fileName))).map fun s => (1, s)

/-- `sizeof(struct inotify_event)`, without the name. -/
def inotifyEventSize : Nat := 16

def inCreate : UInt32 := 0x100

/-- A string in memory, up to its zero. -/
def cString (mem : List UInt8) : Except Fault Path :=
  if 0 ∈ mem then .ok (mem.takeWhile (· ≠ 0)) else .error .outside

/-- The header of a record: `wd`, `mask` and `len`. -/
def header (eventBuf : List UInt8) : Option (Int × UInt32 × UInt32) :=
  (load32 eventBuf).bind fun wd =>
    (load32 (eventBuf.drop 4)).bind fun mask =>
      (load32 (eventBuf.drop 12)).map fun len => (toInt wd, mask, len)

/-- One record: the handler that it is for, if it has a name. -/
def handle (m : Moment κ) (fuel : Nat) (wd : Int) (mask len : UInt32) (name : List UInt8) (cev : Int)
    (s : Notified κ) : Except Fault (Int × Notified κ) :=
  if len ≠ 0 then
    (cString name).bind fun fileName =>
      if mask &&& inCreate ≠ 0 then processCreate m fuel wd fileName cev s
      else processRemove m wd fileName cev s
  else .ok (0, s)

/-- The loop over the records. `eventBuf` is what is left of what was read, and
    `turns` bounds how often the loop goes around, each time past a header at
    least. `moments` is what the system says at each turn. -/
def processLoop (fuel : Nat) : Nat → (Nat → Moment κ) → List UInt8 → Int → Notified κ →
    Except Fault (Int × Notified κ)
  | 0, _, _, iRet, s => .ok (iRet, s)
  | turns + 1, moments, eventBuf, iRet, s =>
    match header eventBuf with
    -- Fewer bytes are left than a header has.
    | none => .ok (iRet, s)
    | some (wd, mask, len) =>
      (handle (moments 0) fuel wd mask len (eventBuf.drop inotifyEventSize) iRet s).bind
        fun (n, s) =>
          processLoop fuel turns (fun i => moments (i + 1))
            (eventBuf.drop (inotifyEventSize + len.toNat)) (iRet + n) s

/-- What `read` returns, and the bytes it stored. -/
structure EventRead where
  res : Int
  errno : Int32
  eventBuf : List UInt8

/-- `InotifyDevice::process`. It has no use for the size of the array. -/
def process (fuel : Nat) (r : EventRead) (moments : Nat → Moment κ) (s : Notified κ) :
    Except Fault (Int × Notified κ) :=
  if r.res < inotifyEventSize then
    if r.errno = eintr then .ok (0, s) else .ok (-1, s)
  else processLoop fuel r.eventBuf.length moments r.eventBuf 0 s

end

end InotifyDevice

end Input

end ZeusOS
