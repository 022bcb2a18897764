import ZeusOS.Foundation.Keyed
import ZeusOS.Input.InotifyDevice
import ZeusOS.Input.Reader

/-!
# Scanning for Devices

`EventDevice::scanDevice`, with which the reader thread begins: a directory is
read through, and every character device in it whose name begins with `event` is
opened and handed to the reader. The first one that cannot be opened ends the
scan, before the directory has been closed.

The directory is itself an open file while it is read, so it takes a number
among those the devices get. What the reader needs of the numbers is kept all
the same.

What the devices and the open files come to over a whole run is the account of
`Shelf`: the names of the devices in the order in which they came, and the
number of scans that were broken off. Every device has one file, every scan that
was broken off has left one behind, every file from the beginning is still there
under its number, and no other file is ever left, as long as `readOnce` gets to
no error event.

## Main definitions

* `Nodes`: What a scan asks of the system.
* `scanDevice`, `inputReaderThread`: The functions.
* `Shelf`, `Shelf.act`: The account.
* `Keeps`: What is open, number by number.

## Theorems

* `scanLoop_eq`, `scanDevice_result`: What a scan does, and returns.
* `keeps_openAll`, `keeps_delDevice`: Nothing else is opened or closed.
* `act_accounted`: What a step does to the account.
* `devices_accounted`: The account of every run.
-/

namespace ZeusOS

namespace Input

open Foundation Foundation.Runs Foundation.Descriptors
open InotifyDevice (Path FileType printPath hidden eventPrefix)

/-- What a scan asks of the system: what a path leads to, the names in a
    directory, and whether a device may be opened. -/
structure Nodes where
  stat : Path → Option FileType
  opendir : Path → Option (List Path)
  opens : Path → Bool

/-- A path as a string. -/
def text (path : Path) : String := String.ofList (path.map fun b => Char.ofNat b.toNat)

def isCharDevice_Static (sys : Nodes) (strFilePath : Path) : Bool :=
  sys.stat strFilePath = some .chr

/-- The loop over the entries. -/
def scanLoop (sys : Nodes) (devicePath : Path) : List Path → InputReader → Int32 × InputReader
  | [], s => (0, s)
  | file :: files, s =>
    if hidden file then scanLoop sys devicePath files s
    else
      let strTmp := printPath devicePath file
      if isCharDevice_Static sys strTmp then
        if eventPrefix <+: file then
          if sys.opens strTmp then scanLoop sys devicePath files (openDevice (text strTmp) s)
          else (-1, s)
        else scanLoop sys devicePath files s
      else scanLoop sys devicePath files s

def scanDevice (sys : Nodes) (devicePath : Path) (s : InputReader) : Int32 × InputReader :=
  match sys.opendir devicePath with
  | none => (-1, s)
  | some files =>
    let pDir := lowestFree s.files
    let (iRet, s) := scanLoop sys devicePath files { s with files := openFile .other s.files }
    -- A scan that is broken off returns before `closedir`.
    if iRet = 0 then (0, { s with files := close s.files pDir }) else (iRet, s)

/-- `"/dev/input"` and `"/dev"`. -/
def devInput : Path := [0x2f, 0x64, 0x65, 0x76, 0x2f, 0x69, 0x6e, 0x70, 0x75, 0x74]
def dev : Path := [0x2f, 0x64, 0x65, 0x76]

/-- What can happen to the reader. -/
inductive Move where
  | scanDevice (sys : Nodes) (devicePath : Path)
  | call (c : ReaderCall)

def act (s : InputReader) : Move → Option InputReader
  | .scanDevice sys devicePath => some (scanDevice sys devicePath s).2
  | .call c => step s c

/-- The reader thread: two scans, and then it reads for ever. -/
def inputReaderThread (first second : Nodes) (pendings : List (List (Nat × UInt32))) : List Move :=
  .scanDevice first devInput :: .scanDevice second dev ::
    pendings.map fun pending => .call (.readOnce pending)

/-- The names of the devices there are, and how many directories have been left
    open. -/
structure Shelf where
  names : List String
  lost : Nat
  deriving DecidableEq, Repr

/-- Whether a file is a device, as far as its name and its type say. -/
def Nodes.isDevice (sys : Nodes) (devicePath file : Path) : Bool :=
  !hidden file && eventPrefix.isPrefixOf file && isCharDevice_Static sys (printPath devicePath file)

/-- The devices in a directory. -/
def Nodes.devices (sys : Nodes) (devicePath : Path) (files : List Path) : List Path :=
  (files.filter (sys.isDevice devicePath)).map (printPath devicePath)

/-- What a scan of these names adds. -/
def Shelf.scan (sh : Shelf) (sys : Nodes) (devicePath : Path) (files : List Path) : Shelf :=
  { names := sh.names ++ ((sys.devices devicePath files).takeWhile sys.opens).map text
    lost := sh.lost + if ∀ path ∈ sys.devices devicePath files, sys.opens path = true then 0 else 1 }

def Shelf.act (sh : Shelf) : Move → Shelf
  | .scanDevice sys devicePath =>
    match sys.opendir devicePath with
    | none => sh
    | some files => sh.scan sys devicePath files
  | .call (.addDevice strTmp) => { sh with names := sh.names ++ [strTmp] }
  | .call (.delDevice pcDevicePath) => { sh with names := sh.names.erase pcDevicePath }
  | .call (.readOnce _) => sh

variable {sys : Nodes} {devicePath : Path} {s : InputReader}

/-- The devices of a list of names, opened one after another until one cannot
    be. -/
def openAll (sys : Nodes) : List Path → InputReader → InputReader
  | [], s => s
  | path :: paths, s => if sys.opens path then openAll sys paths (openDevice (text path) s) else s

/-- The loop opens the devices, and fails if one of them cannot be opened. -/
theorem scanLoop_eq (files : List Path) (s : InputReader) :
    scanLoop sys devicePath files s
      = (if ∀ path ∈ sys.devices devicePath files, sys.opens path = true then 0 else -1,
          openAll sys (sys.devices devicePath files) s) := by
  induction files generalizing s with
  | nil => rfl
  | cons file files ih =>
      by_cases hdevice : sys.isDevice devicePath file = true
      · have hdevices : sys.devices devicePath (file :: files)
            = printPath devicePath file :: sys.devices devicePath files := by
          rw [Nodes.devices, List.filter_cons_of_pos hdevice]
          rfl
        simp only [Nodes.isDevice, Bool.and_eq_true, Bool.not_eq_true',
          List.isPrefixOf_iff_prefix] at hdevice
        rcases hdevice with ⟨⟨hhidden, hprefix⟩, hchar⟩
        rw [scanLoop, hhidden, if_neg Bool.false_ne_true, hdevices]
        simp only [hchar, if_true, if_pos hprefix, List.forall_mem_cons, openAll]
        by_cases hopens : sys.opens (printPath devicePath file) = true
        · rw [if_pos hopens, if_pos hopens, ih]
          simp only [hopens, true_and]
        · rw [if_neg hopens, if_neg hopens, if_neg fun h => hopens h.1]
      · -- Whatever is no device is passed over.
        have hdevices : sys.devices devicePath (file :: files) = sys.devices devicePath files := by
          rw [Nodes.devices, List.filter_cons_of_neg hdevice]
          rfl
        rw [hdevices, ← ih, scanLoop]
        simp only [Nodes.isDevice, Bool.and_eq_true, Bool.not_eq_true', List.isPrefixOf_iff_prefix,
          not_and] at hdevice
        by_cases hhidden : hidden file = true
        · rw [if_pos hhidden]
        · rw [if_neg hhidden]
          rw [Bool.not_eq_true] at hhidden
          by_cases hchar : isCharDevice_Static sys (printPath devicePath file) = true
          · simp only [hchar, if_true]
            rw [if_neg fun hprefix => hdevice ⟨hhidden, hprefix⟩ hchar]
          · simp only [hchar, Bool.false_eq_true, if_false]

/-- A scan returns zero exactly if the directory and every device in it can be
    opened. -/
theorem scanDevice_result (sys : Nodes) (devicePath : Path) (s : InputReader) :
    (scanDevice sys devicePath s).1 = 0 ↔ ∃ files, sys.opendir devicePath = some files ∧
      ∀ path ∈ sys.devices devicePath files, sys.opens path = true := by
  have hminus : (-1 : Int32) ≠ 0 := by decide
  rw [scanDevice]
  rcases hdir : sys.opendir devicePath with _ | files
  · simp only [hminus, reduceCtorEq, false_and, exists_false]
  · simp only [scanLoop_eq, Option.some.injEq, exists_eq_left']
    by_cases hall : ∀ path ∈ sys.devices devicePath files, sys.opens path = true
    · simp only [if_pos hall]
      exact iff_of_true rfl hall
    · simp only [if_neg hall, if_neg hminus]
      exact iff_of_false hminus hall

/-- Another file is opened. -/
theorem agree_openOther (h : Agree s) : Agree { s with files := openFile .other s.files } := by
  refine ⟨h.distinct, fun d hd => ?_, h.registered, h.objects, h.fresh⟩
  change get (openFile .other s.files) d.mFd = _
  rw [get_openFile, if_neg (ne_lowestFree h hd)]
  exact h.opened d hd

/-- And closed again: no device has its number. -/
theorem agree_closeOther (h : Agree s) {fd : Nat} (hother : get s.files fd = some .other) :
    Agree { s with files := close s.files fd } := by
  refine ⟨h.distinct, fun d hd => ?_, h.registered, h.objects, h.fresh⟩
  have hne : d.mFd ≠ fd := by
    intro heq
    have hopened := h.opened d hd
    rw [heq, hother] at hopened
    cases hopened
  change get (close s.files fd) d.mFd = _
  rw [get_close, if_neg hne]
  exact h.opened d hd

/-- The devices that are opened come behind those there are, with a file
    each. -/
theorem openAll_spec (sys : Nodes) (h : Agree s) (paths : List Path) :
    Agree (openAll sys paths s) ∧
      (openAll sys paths s).deviceList.map Device.mDeviceName
        = s.deviceList.map Device.mDeviceName ++ (paths.takeWhile sys.opens).map text ∧
      openCount (openAll sys paths s).files
        = openCount s.files + (paths.takeWhile sys.opens).length := by
  induction paths generalizing s with
  | nil => exact ⟨h, (List.append_nil _).symm, rfl⟩
  | cons path paths ih =>
      by_cases hopens : sys.opens path = true
      · rcases ih (agree_openDevice h (text path)) with ⟨hagree, hnames, hfiles⟩
        rw [openAll, if_pos hopens, List.takeWhile_cons_of_pos hopens]
        rw [openDevice_eq h] at hnames hfiles hagree ⊢
        refine ⟨hagree, ?_, ?_⟩
        · rw [hnames, List.map_append, List.append_assoc]
          rfl
        · rw [hfiles, openCount_openFile, List.length_cons]
          omega
      · rw [openAll, if_neg hopens, List.takeWhile_cons_of_neg hopens]
        exact ⟨h, (List.append_nil _).symm, rfl⟩

/-- What is open: what was open at the beginning, a file for every device, and
    these directories. -/
structure Keeps (base : Table File) (streams : List Nat) (s : InputReader) : Prop where
  open_iff : ∀ fd f, get s.files fd = some f ↔ get base fd = some f ∨
    (∃ d ∈ s.deviceList, d.mFd = fd ∧ f = .device d.this) ∨ fd ∈ streams ∧ f = .other
  apart : ∀ d ∈ s.deviceList, get base d.mFd = none
  leaked : ∀ fd ∈ streams, get base fd = none
  once : streams.Nodup

variable {base : Table File} {streams : List Nat}

/-- A directory that has not been closed is an open file. -/
theorem keeps_other (h : Keeps base streams s) {fd : Nat} (hfd : fd ∈ streams) :
    get s.files fd = some .other :=
  (h.open_iff fd .other).mpr (Or.inr (Or.inr ⟨hfd, rfl⟩))

/-- A free number was free at the beginning. -/
theorem keeps_free (h : Keeps base streams s) :
    get base (lowestFree s.files) = none ∧ lowestFree s.files ∉ streams := by
  have hfree := get_lowestFree s.files
  constructor
  · rcases hbase : get base (lowestFree s.files) with _ | f
    · rfl
    · rw [(h.open_iff _ f).mpr (Or.inl hbase)] at hfree
      cases hfree
  · intro hmem
    rw [keeps_other h hmem] at hfree
    cases hfree

theorem keeps_openDevice (h : Keeps base streams s) (hagree : Agree s) (strTmp : String) :
    Keeps base streams (openDevice strTmp s) := by
  rcases keeps_free h with ⟨hbase, hstream⟩
  rw [openDevice_eq hagree]
  refine ⟨fun fd f => ?_, fun d hd => ?_, h.leaked, h.once⟩
  · simp only [get_openFile, List.mem_append, List.mem_singleton]
    by_cases hfd : fd = lowestFree s.files
    · -- The new number is the new device's and nobody else's.
      subst hfd
      rw [if_pos rfl, Option.some.injEq]
      constructor
      · rintro rfl
        exact Or.inr (Or.inl ⟨_, Or.inr rfl, rfl, rfl⟩)
      · rintro (hf | ⟨d, hd | rfl, hnumber, rfl⟩ | ⟨hmem, _⟩)
        · rw [hbase] at hf
          cases hf
        · exact absurd hnumber (ne_lowestFree hagree hd)
        · rfl
        · exact absurd hmem hstream
    · rw [if_neg hfd, h.open_iff]
      refine or_congr_right (or_congr_left ⟨?_, ?_⟩)
      · rintro ⟨d, hd, heq⟩
        exact ⟨d, Or.inl hd, heq⟩
      · rintro ⟨d, hd | rfl, hnumber, heq⟩
        · exact ⟨d, hd, hnumber, heq⟩
        · exact absurd hnumber.symm hfd
  · rcases List.mem_append.mp hd with hd | hd
    · exact h.apart d hd
    · rw [List.mem_singleton.mp hd]
      exact hbase

/-- A directory is opened, -/
theorem keeps_openOther (h : Keeps base streams s) (hagree : Agree s) :
    Keeps base (lowestFree s.files :: streams) { s with files := openFile .other s.files } := by
  rcases keeps_free h with ⟨hbase, hstream⟩
  refine ⟨fun fd f => ?_, h.apart, List.forall_mem_cons.mpr ⟨hbase, h.leaked⟩,
    List.nodup_cons.mpr ⟨hstream, h.once⟩⟩
  simp only [get_openFile, List.mem_cons]
  by_cases hfd : fd = lowestFree s.files
  · subst hfd
    rw [if_pos rfl, Option.some.injEq]
    constructor
    · rintro rfl
      exact Or.inr (Or.inr ⟨Or.inl rfl, rfl⟩)
    · rintro (hf | ⟨d, hd, hnumber, _⟩ | ⟨_, rfl⟩)
      · rw [hbase] at hf
        cases hf
      · exact absurd hnumber (ne_lowestFree hagree hd)
      · rfl
  · rw [if_neg hfd, h.open_iff]
    simp only [hfd, false_or]

/-- and closed. -/
theorem keeps_closeOther {fd : Nat} (h : Keeps base (fd :: streams) s) (hagree : Agree s) :
    Keeps base streams { s with files := close s.files fd } := by
  rcases List.nodup_cons.mp h.once with ⟨hstream, honce⟩
  rcases List.forall_mem_cons.mp h.leaked with ⟨hbase, hleaked⟩
  have hother := keeps_other h List.mem_cons_self
  refine ⟨fun fd' f => ?_, h.apart, hleaked, honce⟩
  simp only [get_close]
  by_cases hfd : fd' = fd
  · subst hfd
    rw [if_pos rfl]
    refine iff_of_false (Option.some_ne_none f).symm ?_
    rintro (hf | ⟨d, hd, rfl, _⟩ | ⟨hmem, _⟩)
    · rw [hbase] at hf
      cases hf
    · rw [hagree.opened d hd] at hother
      cases hother
    · exact hstream hmem
  · rw [if_neg hfd, h.open_iff]
    simp only [List.mem_cons, hfd, false_or]

theorem keeps_delDevice (h : Keeps base streams s) (hagree : Agree s) (pcDevicePath : String) :
    Keeps base streams (delDevice pcDevicePath s).2 := by
  rcases delDevice_cases pcDevicePath s with heq | ⟨d, hd, _, heq⟩
  · rw [heq]
    exact h
  · rw [heq]
    refine ⟨fun fd f => ?_, fun e he => h.apart e (List.mem_filter.mp he).1, h.leaked, h.once⟩
    rw [get_closeFd]
    simp only [closeFd, List.mem_filter, decide_eq_true_eq]
    by_cases hfd : fd = d.mFd
    · -- Nothing else was open under the number that is closed.
      subst hfd
      rw [if_pos rfl]
      refine iff_of_false (Option.some_ne_none f).symm ?_
      rintro (hf | ⟨e, ⟨he, hthis⟩, hnumber, _⟩ | ⟨hmem, _⟩)
      · rw [h.apart d hd] at hf
        cases hf
      · exact (this_ne_iff hagree hd he).mp hthis hnumber
      · have hopened := hagree.opened d hd
        rw [keeps_other h hmem] at hopened
        cases hopened
    · rw [if_neg hfd, h.open_iff]
      refine or_congr_right (or_congr_left ⟨?_, ?_⟩)
      · rintro ⟨e, he, rfl, hf⟩
        exact ⟨e, ⟨he, (this_ne_iff hagree hd he).mpr hfd⟩, rfl, hf⟩
      · rintro ⟨e, ⟨he, _⟩, hnumber, hf⟩
        exact ⟨e, he, hnumber, hf⟩

theorem keeps_openAll (sys : Nodes) (h : Keeps base streams s) (hagree : Agree s)
    (paths : List Path) : Keeps base streams (openAll sys paths s) := by
  induction paths generalizing s with
  | nil => exact h
  | cons path paths ih =>
      rw [openAll]
      split
      · exact ih (keeps_openDevice h hagree _) (agree_openDevice hagree _)
      · exact h

theorem keeps_start (files : Table File) : Keeps files [] (start files) := by
  refine ⟨fun fd f => ?_, fun d hd => absurd hd List.not_mem_nil,
    fun fd hfd => absurd hfd List.not_mem_nil, List.nodup_nil⟩
  simp only [start, List.not_mem_nil, false_and, exists_false, or_false]

/-- The reader and its open files are as the account says, if these files were
    open at the beginning. -/
structure Accounted (base : Table File) (s : InputReader) (sh : Shelf) : Prop where
  agree : Agree s
  names : s.deviceList.map Device.mDeviceName = sh.names
  files : openCount s.files = openCount base + sh.names.length + sh.lost
  keeps : ∃ streams, Keeps base streams s ∧ streams.length = sh.lost

variable {sh : Shelf}

theorem scanDevice_accounted (h : Accounted base s sh) (sys : Nodes) (devicePath : Path) :
    Accounted base (scanDevice sys devicePath s).2 (sh.act (.scanDevice sys devicePath)) := by
  rw [scanDevice, Shelf.act]
  rcases hdir : sys.opendir devicePath with _ | files
  · exact h
  · simp only [scanLoop_eq]
    rcases openAll_spec sys (agree_openOther h.agree) (sys.devices devicePath files) with
      ⟨hagree, hnames, hfiles⟩
    have hnames : (openAll sys (sys.devices devicePath files)
        { s with files := openFile .other s.files }).deviceList.map Device.mDeviceName
        = (sh.scan sys devicePath files).names := by
      rw [hnames, h.names, Shelf.scan]
    have hlength : (sh.scan sys devicePath files).names.length
        = sh.names.length + ((sys.devices devicePath files).takeWhile sys.opens).length := by
      rw [Shelf.scan, List.length_append, List.length_map]
    have hcount := h.files
    rcases h.keeps with ⟨streams, hkeeps, hstreams⟩
    have hkeeps := keeps_openAll sys (keeps_openOther hkeeps h.agree) (agree_openOther h.agree)
      (sys.devices devicePath files)
    -- The directory is open all the while.
    have hother := keeps_other hkeeps List.mem_cons_self
    simp only [openCount_openFile] at hfiles
    by_cases hall : ∀ path ∈ sys.devices devicePath files, sys.opens path = true
    · have hlost : (sh.scan sys devicePath files).lost = sh.lost := by
        rw [Shelf.scan, if_pos hall, Nat.add_zero]
      have hclosed := openCount_close (by rw [hother]; exact Option.some_ne_none _)
      simp only [if_pos hall, if_true]
      refine ⟨agree_closeOther hagree hother, hnames, ?_, streams, keeps_closeOther hkeeps hagree, ?_⟩
      · rw [hlength, hlost]
        change openCount (close _ _) = _
        omega
      · rw [hlost]
        exact hstreams
    · have hminus : ¬ (-1 : Int32) = 0 := by decide
      have hlost : (sh.scan sys devicePath files).lost = sh.lost + 1 := by
        rw [Shelf.scan, if_neg hall]
      simp only [if_neg hall, if_neg hminus]
      refine ⟨hagree, hnames, ?_, _, hkeeps, ?_⟩
      · rw [hlength, hlost]
        omega
      · rw [hlost, List.length_cons, hstreams]

theorem delDevice_accounted (h : Accounted base s sh) (pcDevicePath : String) :
    Accounted base (delDevice pcDevicePath s).2 (sh.act (.call (.delDevice pcDevicePath))) := by
  have hagree := agree_delDevice h.agree pcDevicePath
  have hcount := h.files
  have hnames := h.names
  rcases h.keeps with ⟨streams, hkeeps, hstreams⟩
  have hkeeps := keeps_delDevice hkeeps h.agree pcDevicePath
  rw [Shelf.act]
  unfold delDevice at hagree hkeeps ⊢
  cases hfind : s.deviceList.find? fun device => device.mDeviceName = pcDevicePath with
  | none =>
      have hunknown : pcDevicePath ∉ sh.names := by
        rw [← hnames]
        intro hmem
        rcases List.mem_map.mp hmem with ⟨d, hd, heq⟩
        exact absurd heq (Keyed.find_none.mp hfind d hd)
      rw [List.erase_of_not_mem hunknown]
      exact h
  | some d =>
      rcases Keyed.find_some hfind with ⟨hd, hname⟩
      simp only [hfind] at hagree hkeeps
      simp only [closeFd_delEpollFd] at hagree hkeeps ⊢
      have hnodup : s.deviceList.Nodup := List.Nodup.of_map _ h.agree.objects
      -- To take out everything at an address is to take out one device.
      have herase : (s.deviceList.filter fun e => e.this ≠ d.this) = s.deviceList.erase d := by
        rw [hnodup.erase_eq_filter]
        refine List.filter_congr fun e he => ?_
        by_cases heq : e = d
        · simp only [heq, ne_eq, not_true, decide_false, bne_self_eq_false]
        · have hthis : e.this ≠ d.this := fun hc =>
            heq (List.inj_on_of_nodup_map h.agree.objects he hd hc)
          simp only [hthis, ne_eq, not_false_eq_true, decide_true]
          exact (bne_iff_ne.mpr heq).symm
      have hleft : (s.deviceList.erase d).map Device.mDeviceName = sh.names.erase pcDevicePath := by
        rw [← hnames, ← Keyed.eraseP_of_find hfind, List.erase_eq_eraseP', List.eraseP_map]
        rfl
      have hmem : pcDevicePath ∈ sh.names := by
        rw [← hnames, ← hname]
        exact List.mem_map_of_mem hd
      have hclosed : openCount (close s.files d.mFd) + 1 = openCount s.files := by
        refine openCount_close ?_
        rw [h.agree.opened d hd]
        exact Option.some_ne_none _
      have hpos := List.length_pos_of_mem hmem
      refine ⟨hagree, ?_, ?_, streams, hkeeps, hstreams⟩
      · simp only [closeFd, herase]
        exact hleft
      · change openCount (close s.files d.mFd)
          = openCount base + (sh.names.erase pcDevicePath).length + sh.lost
        rw [List.length_erase_of_mem hmem]
        omega

/-- A step keeps the account, unless it is a `readOnce` that gets to an error
    event. -/
theorem act_accounted (h : Accounted base s sh) {m : Move} {s' : InputReader}
    (hclean : ∀ pending, m = .call (.readOnce pending) → Clean pending) (hact : act s m = some s') :
    Accounted base s' (sh.act m) := by
  cases m with
  | scanDevice sys devicePath =>
      rw [← Option.some.inj hact]
      exact scanDevice_accounted h sys devicePath
  | call c =>
      cases c with
      | addDevice strTmp =>
          rw [← Option.some.inj hact]
          rcases h.keeps with ⟨streams, hkeeps, hstreams⟩
          refine ⟨agree_openDevice h.agree strTmp, ?_, ?_, streams,
            keeps_openDevice hkeeps h.agree strTmp, hstreams⟩
          · rw [openDevice_eq h.agree, List.map_append, h.names]
            rfl
          · have hcount := h.files
            rw [openDevice_eq h.agree]
            change openCount (openFile _ _)
              = openCount base + (sh.names ++ [strTmp]).length + sh.lost
            rw [openCount_openFile, List.length_append, List.length_singleton]
            omega
      | delDevice pcDevicePath =>
          rw [← Option.some.inj hact]
          exact delDevice_accounted h pcDevicePath
      | readOnce pending =>
          rcases step_readOnce hact with ⟨hregistered, rfl⟩
          rw [readOnce_of_clean h.agree hregistered (hclean pending rfl)]
          exact h

/-- The account of a run, from any state that has one. -/
theorem run_accounted (h : Accounted base s sh) (moves : List Move)
    (hclean : ∀ pending, .call (.readOnce pending) ∈ moves → Clean pending) {s' : InputReader}
    (hrun : run act s moves = some s') : Accounted base s' (moves.foldl Shelf.act sh) := by
  induction moves generalizing s sh with
  | nil =>
      rw [run_nil, Option.some.injEq] at hrun
      rw [← hrun]
      exact h
  | cons m moves ih =>
      rw [run_cons, Option.bind_eq_some_iff] at hrun
      rcases hrun with ⟨s₁, hact, hrun⟩
      have hfirst : ∀ pending, m = .call (.readOnce pending) → Clean pending := by
        intro pending heq
        refine hclean pending ?_
        rw [heq]
        exact List.mem_cons_self
      exact ih (act_accounted h hfirst hact)
        (fun pending hmem => hclean pending (List.mem_cons_of_mem _ hmem)) hrun

theorem accounted_start (files : Table File) : Accounted files (start files) ⟨[], 0⟩ :=
  ⟨(inOrder_start files).agree, rfl, rfl, [], keeps_start files, rfl⟩

/-- In every run of scans, of devices that are plugged in and out, and of reads
    that get to no error event, every device has its own open file, the devices
    are those of the account in its order, and besides them only the files from
    the beginning are open, each under its number, and a directory for every scan
    that was broken off. -/
theorem devices_accounted (files : Table File) (moves : List Move)
    (hclean : ∀ pending, .call (.readOnce pending) ∈ moves → Clean pending) {s : InputReader}
    (hrun : run act (start files) moves = some s) :
    InOrder s ∧
      s.deviceList.map Device.mDeviceName = (moves.foldl Shelf.act ⟨[], 0⟩).names ∧
      openCount s.files = openCount files + (moves.foldl Shelf.act ⟨[], 0⟩).names.length
        + (moves.foldl Shelf.act ⟨[], 0⟩).lost ∧
      ∃ streams : List Nat, streams.Nodup ∧
        streams.length = (moves.foldl Shelf.act ⟨[], 0⟩).lost ∧
        (∀ fd ∈ streams, get files fd = none) ∧
        ∀ fd f, get s.files fd = some f ↔ get files fd = some f ∨
          (∃ d ∈ s.deviceList, d.mFd = fd ∧ f = .device d.this) ∨ fd ∈ streams ∧ f = .other := by
  have h := run_accounted (accounted_start files) moves hclean hrun
  rcases h.keeps with ⟨streams, hkeeps, hstreams⟩
  exact ⟨inOrder_of_agree h.agree, h.names, h.files, streams, hkeeps.once, hstreams,
    hkeeps.leaked, hkeeps.open_iff⟩

/-- Two devices, with something else between them, of which the second may not
    be opened. -/
def sampleNodes : Nodes :=
  { stat := fun path => if path.getLast? = some 0x78 then some .reg else some .chr
    opendir := fun _ => some [[0x2e], eventPrefix ++ [0x30], eventPrefix ++ [0x78],
      eventPrefix ++ [0x31]]
    opens := fun path => path.getLast? = some 0x30 }

/-- The thread starts with three open files. Both directories have a device
    that can be opened and one that cannot, so four files more are open in the
    end. -/
theorem devices_accounted_sample :
    ∃ s, run act (start (List.replicate 3 (some .other)))
        (inputReaderThread sampleNodes sampleNodes [[(4, epollIn)]]) = some s ∧
      InOrder s ∧ s.deviceList.map Device.mDeviceName = ["/dev/input/event0", "/dev/event0"] ∧
      openCount s.files = 7 ∧
      ∃ streams : List Nat, streams.Nodup ∧ streams.length = 2 ∧
        (∀ fd ∈ streams, get (List.replicate 3 (some File.other)) fd = none) ∧
        ∀ fd f, get s.files fd = some f ↔ get (List.replicate 3 (some File.other)) fd = some f ∨
          (∃ d ∈ s.deviceList, d.mFd = fd ∧ f = .device d.this) ∨ fd ∈ streams ∧ f = .other := by
  have hsome : (run act (start (List.replicate 3 (some .other)))
      (inputReaderThread sampleNodes sampleNodes [[(4, epollIn)]])).isSome = true := by
    decide +kernel
  have hshelf : (inputReaderThread sampleNodes sampleNodes [[(4, epollIn)]]).foldl Shelf.act ⟨[], 0⟩
      = ⟨["/dev/input/event0", "/dev/event0"], 2⟩ := by decide +kernel
  rcases Option.isSome_iff_exists.mp hsome with ⟨s, hrun⟩
  have haccount := devices_accounted (List.replicate 3 (some .other))
    (inputReaderThread sampleNodes sampleNodes [[(4, epollIn)]]) (by
      intro pending hmem
      simp only [inputReaderThread, List.map_cons, List.map_nil, List.mem_cons, reduceCtorEq,
        Move.call.injEq, ReaderCall.readOnce.injEq, List.not_mem_nil, false_or, or_false] at hmem
      rw [hmem]
      exact clean_cons_epollIn 4 []) hrun
  rw [hshelf] at haccount
  exact ⟨s, hrun, haccount⟩

end Input

end ZeusOS
