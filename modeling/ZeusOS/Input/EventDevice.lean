import Mathlib.Data.List.Basic

/-!
# Event Devices

`EventDevice::process`: one read from an input device, and the raw events it
brought cooked into the slots of the caller's array.

The pointer `cev` moves in step with the count `iRet`, so the slot it points
at is kept as that index. The counter `iFlagPressure` is static: one counter
serves every call on every device, and so it is passed from call to call. It is
an `int` that only ever grows between touches, and it wraps around as the
compiled code's does.

What `read` says is taken as it comes: its value, `errno`, and the entries of
`readBuffer` that it filled. An entry it did not fill holds whatever was on the
stack, and looking at one is a fault, as is writing a slot behind the array.

## Main definitions

* `InputEvent`, `CookEvent`: The raw and the cooked event.
* `cookTouchEvent`, `cookKeyEvent`: What one raw event changes in a slot.
* `Decoder`, `Decoder.handle`: The state of the loop and its body.
* `processLoop`, `process`: The loop and the function around it.
-/

namespace ZeusOS

namespace Input

/-- `struct timeval`. -/
structure Timeval where
  tvSec : UInt32
  tvUsec : UInt32
  deriving DecidableEq, Repr

/-- `struct input_event`, less its time, which nothing reads. -/
structure InputEvent where
  type : UInt16
  code : UInt16
  value : Int32
  deriving DecidableEq, Repr

/-- `sizeof(struct input_event)`. -/
def inputEventSize : UInt32 := 16

def evSyn : UInt16 := 0
def evKey : UInt16 := 1
def evAbs : UInt16 := 3

def synReport : UInt16 := 0
def btnTouch : UInt16 := 0x14a

def absMtTouchMajor : UInt16 := 0x30
def absMtPositionX : UInt16 := 0x35
def absMtPositionY : UInt16 := 0x36
def absMtTrackingId : UInt16 := 0x39

def touchscreen : Int32 := 1
def keyEvent : Int32 := 256

/-- `struct CookEvent`. The path is a pointer, which this device never sets. -/
structure CookEvent where
  tTime : Timeval
  filePath : UInt32
  iType : Int32
  iX : Int32
  iY : Int32
  iKey : Int32
  iPressure : Int32
  iTrackID : Int32
  iTouchMajor : Int32
  deriving DecidableEq, Repr

/-- `CookTouchEvent`. The panel sends no pressure, so a position stands for
    one. -/
def cookTouchEvent (iev : InputEvent) (cookEvent : CookEvent) : CookEvent :=
  let cookEvent := { cookEvent with iType := touchscreen }
  if iev.code = absMtPositionX then { cookEvent with iX := iev.value, iPressure := 1 }
  else if iev.code = absMtPositionY then { cookEvent with iY := iev.value }
  else if iev.code = absMtTouchMajor then { cookEvent with iTouchMajor := iev.value }
  else if iev.code = absMtTrackingId then { cookEvent with iTrackID := iev.value }
  else cookEvent

/-- `CookKeyEvent`. -/
def cookKeyEvent (iev : InputEvent) (cookEvent : CookEvent) : CookEvent :=
  { cookEvent with
    iKey := iev.code.toUInt32.toInt32
    iType := if iev.code = btnTouch then touchscreen else keyEvent }

/-- The loop's state: the caller's array, how many of its slots are complete,
    which is where `cev` points, and the static counter. -/
structure Decoder where
  cookEvent : List CookEvent
  iRet : Nat
  iFlagPressure : Int32
  deriving DecidableEq, Repr

/-- Change the slot `cev` points at. -/
def Decoder.write (cook : CookEvent → CookEvent) (d : Decoder) : Option Decoder :=
  if d.iRet < d.cookEvent.length then
    some { d with cookEvent := d.cookEvent.modify d.iRet cook }
  else none

/-- Whether the event completes a frame. -/
def InputEvent.isReport (iev : InputEvent) : Bool := iev.type = evSyn ∧ iev.code = synReport

/-- What a `SYN_REPORT` leaves in the slot. -/
def report (iFlagPressure : Int32) (now : Timeval) (cev : CookEvent) : CookEvent :=
  { (if iFlagPressure = 2 then { cev with iPressure := 0 } else cev) with tTime := now }

/-- The body of the loop. `clock` is what `gettimeofday` says for each slot. -/
def Decoder.handle (clock : Nat → Timeval) (iev : InputEvent) (d : Decoder) : Option Decoder :=
  if iev.type = evAbs then
    (d.write (cookTouchEvent iev)).map fun d => { d with iFlagPressure := 0 }
  else if iev.type = evKey then d.write (cookKeyEvent iev)
  else if iev.isReport then
    let iFlagPressure := d.iFlagPressure + 1
    (d.write (report iFlagPressure (clock d.iRet))).map fun d =>
      { d with iRet := d.iRet + 1, iFlagPressure }
  else some d

/-- The loop over `readBuffer`, given the entries that are left to look at and
    how many the loop still wants. -/
def processLoop (clock : Nat → Timeval) (iSize : Int) :
    List InputEvent → Nat → Decoder → Option Decoder
  | _, 0, d => some d
  | [], _ + 1, _ => none
  | iev :: rest, count + 1, d => (d.handle clock iev).bind fun d =>
    -- Only a report moves the count, so only there is it compared.
    if iev.isReport ∧ (d.iRet : Int) = iSize then some d
    else processLoop clock iSize rest count d

def eintr : Int32 := 4
def eagain : Int32 := 11
def enodev : Int32 := 19

/-- What `read` returns, and what it stored. -/
structure ReadResult where
  readSize : Int32
  errno : Int32
  filled : List InputEvent
  deriving DecidableEq, Repr

/-- What a call returns, and what it leaves in the array and the counter. -/
structure Processed where
  iRet : Int
  cookEvent : List CookEvent
  iFlagPressure : Int32
  deriving DecidableEq, Repr

/-- `EventDevice::process`. After `EAGAIN` or `EINTR` the function goes on, with
    the size still negative, and converts it to `size_t`. -/
def process (r : ReadResult) (clock : Nat → Timeval) (cookEvent : List CookEvent) (iSize : Int)
    (iFlagPressure : Int32) : Option Processed :=
  let failed : Processed := ⟨-1, cookEvent, iFlagPressure⟩
  if r.readSize = 0 ∨ (r.readSize < 0 ∧ r.errno = enodev) then some failed
  else if r.readSize < 0 ∧ r.errno ≠ eagain ∧ r.errno ≠ eintr then some failed
  else if ¬ r.readSize < 0 ∧ r.readSize.toUInt32 % inputEventSize ≠ 0 then some failed
  else
    let count := (r.readSize.toUInt32 / inputEventSize).toNat
    (processLoop clock iSize r.filled count ⟨cookEvent, 0, iFlagPressure⟩).map fun d =>
      ⟨d.iRet, d.cookEvent, d.iFlagPressure⟩

/-- The cooked events a caller gets. -/
def Processed.returned (p : Processed) : List CookEvent := p.cookEvent.take p.iRet.toNat

end Input

end ZeusOS
