import Mathlib.Data.List.Nodup
import ZeusOS.Foundation.Descriptors
import ZeusOS.Foundation.Runs

/-!
# The Input Reader

`InputReader`: the list of devices, the epoll set their descriptors are
registered in, and the descriptor table of the process.

A device remembers the number of the descriptor that was opened for it, so it
works only as long as nobody else closes that number. `delDevice` takes a
device out of the list, the epoll set and the table together. The error branch
of `readOnce` takes its descriptor out of the last two and leaves the device in
the list. The next device that is opened gets the same number, and then the
list has two devices for one descriptor: `findDevice` finds the dead one, and
removing the dead one unregisters and closes the descriptor of the other.

So the structures agree exactly as long as `readOnce` never gets to an error
event. It looks at the events in the order in which they are reported, and
stops at the first one that is a plain `EPOLLIN`.

The files of the table are told apart by the device they were opened for, which
is what the numbers should stand for and the code cannot see.

## Main definitions

* `Device`, `InputReader`: The state.
* `addDevice`, `delDevice`, `findDevice`, `readOnce`: The functions.
* `Agree`: The three structures agree.
* `InOrder`: What follows for `findDevice` and `delDevice`.

## Theorems

* `openDevice_eq`: What plugging a device in does.
* `agree_openDevice`, `agree_delDevice`: Plugging and unplugging.
* `readOnce_of_clean`: Without an error event nothing changes.
* `lost_of_not_clean`: With one, a device has lost its descriptor.
* `inOrder_iff_clean`: Both together, over whole runs.
-/

namespace ZeusOS

namespace Input

open Foundation Foundation.Runs Foundation.Descriptors

/-- `Device`, with its address. -/
structure Device where
  this : Nat
  mFd : Nat
  mDeviceName : String
  deriving DecidableEq, Repr

/-- What a descriptor was opened for. -/
inductive File where
  | device (this : Nat)
  | other
  deriving DecidableEq, Repr

/-- The reader and what the kernel keeps for it: the descriptors registered
    with `mEpollFd`, and the open files. `opened` is how many devices there
    have been, and where the next one goes. -/
structure InputReader where
  deviceList : List Device
  epoll : List Nat
  files : Table File
  opened : Nat
  deriving DecidableEq, Repr

/-- `epoll_ctl` refuses a descriptor that is closed, or registered already. -/
def addEpollFd (iFd : Nat) (s : InputReader) : InputReader :=
  if get s.files iFd ≠ none ∧ iFd ∉ s.epoll then { s with epoll := s.epoll ++ [iFd] } else s

/-- `epoll_ctl` again refuses a closed descriptor. -/
def delEpollFd (iFd : Nat) (s : InputReader) : InputReader :=
  if get s.files iFd ≠ none then { s with epoll := s.epoll.filter (· ≠ iFd) } else s

/-- `close`. A registration goes with the file. -/
def closeFd (iFd : Nat) (s : InputReader) : InputReader :=
  { s with files := close s.files iFd, epoll := s.epoll.filter (· ≠ iFd) }

def addDevice (device : Device) (s : InputReader) : InputReader :=
  addEpollFd device.mFd { s with deviceList := s.deviceList ++ [device] }

/-- What `scanDevice` and `processCreate` do with a device node: `open`, `new
    EventDevice`, `setFd`, `setDeviceName`, `addDevice`. -/
def openDevice (strTmp : String) (s : InputReader) : InputReader :=
  addDevice ⟨s.opened, lowestFree s.files, strTmp⟩
    { s with files := openFile (.device s.opened) s.files, opened := s.opened + 1 }

/-- `findDevice(int)`. -/
def findDevice (iFd : Nat) (s : InputReader) : Option Device :=
  s.deviceList.find? fun device => device.mFd = iFd

/-- `delDevice`. `std::list::remove` takes out every element equal to the
    pointer. -/
def delDevice (pcDevicePath : String) (s : InputReader) : Int32 × InputReader :=
  match s.deviceList.find? fun device => device.mDeviceName = pcDevicePath with
  | none => (1, s)
  | some device =>
    (0, closeFd device.mFd (delEpollFd device.mFd
      { s with deviceList := s.deviceList.filter fun d => d.this ≠ device.this }))

def epollIn : UInt32 := 0x1
def epollErr : UInt32 := 0x8
def epollHup : UInt32 := 0x10
def epollRdHup : UInt32 := 0x2000

/-- Whether the error branch is taken. -/
def isError (events : UInt32) : Bool :=
  events &&& epollErr ≠ 0 ∨ events &&& epollHup ≠ 0 ∨ events &&& epollRdHup ≠ 0

/-- The loop of `readOnce` over what `epoll_wait` reported: the device whose
    `process` is called, if it gets to one. -/
def readOnce : List (Nat × UInt32) → InputReader → Option Device × InputReader
  | [], s => (none, s)
  | (fd, events) :: pending, s =>
    if isError events then readOnce pending (closeFd fd (delEpollFd fd s))
    else if events = epollIn then
      match findDevice fd s with
      | none => readOnce pending s
      | some device => (some device, s)
    else readOnce pending s

/-- The most `epoll_wait` reports at once. -/
def epollMaxEvents : Nat := 16

/-- The calls that change the structures. -/
inductive ReaderCall where
  | addDevice (strTmp : String)
  | delDevice (pcDevicePath : String)
  | readOnce (pending : List (Nat × UInt32))
  deriving DecidableEq, Repr

/-- One call. `epoll_wait` reports registered descriptors, each at most once. -/
def step (s : InputReader) : ReaderCall → Option InputReader
  | .addDevice strTmp => some (openDevice strTmp s)
  | .delDevice pcDevicePath => some (delDevice pcDevicePath s).2
  | .readOnce pending =>
    if pending.length ≤ epollMaxEvents ∧ (pending.map Prod.fst).Nodup ∧
        ∀ item ∈ pending, item.1 ∈ s.epoll then
      some (readOnce pending s).2
    else none

/-- The list, the epoll set and the table agree. -/
structure Agree (s : InputReader) : Prop where
  distinct : (s.deviceList.map Device.mFd).Nodup
  opened : ∀ d ∈ s.deviceList, get s.files d.mFd = some (.device d.this)
  registered : ∀ fd, fd ∈ s.epoll ↔ ∃ d ∈ s.deviceList, d.mFd = fd
  objects : (s.deviceList.map Device.this).Nodup
  fresh : ∀ d ∈ s.deviceList, d.this < s.opened

/-- What the descriptors of the devices are good for. -/
structure InOrder (s : InputReader) : Prop where
  agree : Agree s
  finds : ∀ fd d, findDevice fd s = some d → get s.files fd = some (.device d.this)
  found : ∀ d ∈ s.deviceList, findDevice d.mFd s = some d
  deletes : ∀ path fd, get (delDevice path s).2.files fd ≠ get s.files fd ∨
      ¬ (fd ∈ (delDevice path s).2.epoll ↔ fd ∈ s.epoll) →
    ∃ d ∈ s.deviceList, d.mDeviceName = path ∧ get s.files fd = some (.device d.this)

variable {s : InputReader}

theorem mem_closeFd {iFd fd : Nat} : fd ∈ (closeFd iFd s).epoll ↔ fd ∈ s.epoll ∧ fd ≠ iFd := by
  rw [closeFd, List.mem_filter, decide_eq_true_eq]

theorem get_closeFd (iFd fd : Nat) :
    get (closeFd iFd s).files fd = if fd = iFd then none else get s.files fd :=
  get_close s.files iFd fd

/-- Unregistering before closing makes no difference to closing. -/
theorem closeFd_delEpollFd (iFd : Nat) : closeFd iFd (delEpollFd iFd s) = closeFd iFd s := by
  unfold delEpollFd
  -- Refused or not, the registration is gone once the descriptor is closed.
  by_cases hopen : get s.files iFd ≠ none
  · rw [if_pos hopen]
    simp only [closeFd, List.filter_filter, Bool.and_self]
  · rw [if_neg hopen]

/-- The lowest free number is no device's. -/
theorem ne_lowestFree (h : Agree s) {d : Device} (hd : d ∈ s.deviceList) :
    d.mFd ≠ lowestFree s.files := by
  intro heq
  have hopened := h.opened d hd
  rw [heq, get_lowestFree] at hopened
  cases hopened

/-- So `epoll_ctl` does not refuse it. -/
theorem openDevice_eq (h : Agree s) (strTmp : String) :
    openDevice strTmp s =
      { deviceList := s.deviceList ++ [⟨s.opened, lowestFree s.files, strTmp⟩]
        epoll := s.epoll ++ [lowestFree s.files]
        files := openFile (.device s.opened) s.files
        opened := s.opened + 1 } := by
  have hopen : get (openFile (File.device s.opened) s.files) (lowestFree s.files) ≠ none := by
    rw [get_openFile, if_pos rfl]
    exact Option.some_ne_none _
  -- A registered number is a device's, and this one is free.
  have hunregistered : lowestFree s.files ∉ s.epoll := by
    intro hmem
    rcases (h.registered _).mp hmem with ⟨d, hd, heq⟩
    exact ne_lowestFree h hd heq
  unfold openDevice addDevice addEpollFd
  rw [if_pos ⟨hopen, hunregistered⟩]

/-- A device that is plugged in gets a number of its own. -/
theorem agree_openDevice (h : Agree s) (strTmp : String) : Agree (openDevice strTmp s) := by
  rw [openDevice_eq h]
  -- The clauses of `Agree` in their order, old devices first in each.
  constructor
  · simp only [List.map_append, List.map_cons, List.map_nil]
    refine List.Nodup.append h.distinct (List.nodup_singleton _) ?_
    intro fd hfd hnew
    rcases List.mem_map.mp hfd with ⟨d, hd, rfl⟩
    exact ne_lowestFree h hd (List.mem_singleton.mp hnew)
  · intro d hd
    simp only [get_openFile]
    rcases List.mem_append.mp hd with hd | hd
    · rw [if_neg (ne_lowestFree h hd)]
      exact h.opened d hd
    · rw [List.mem_singleton.mp hd, if_pos rfl]
  · intro fd
    simp only [List.mem_append, List.mem_singleton, h.registered]
    constructor
    · rintro (⟨d, hd, rfl⟩ | rfl)
      · exact ⟨d, Or.inl hd, rfl⟩
      · exact ⟨_, Or.inr rfl, rfl⟩
    · rintro ⟨d, hd | rfl, rfl⟩
      · exact Or.inl ⟨d, hd, rfl⟩
      · exact Or.inr rfl
  · simp only [List.map_append, List.map_cons, List.map_nil]
    refine List.Nodup.append h.objects (List.nodup_singleton _) ?_
    intro this hthis hnew
    rcases List.mem_map.mp hthis with ⟨d, hd, rfl⟩
    exact Nat.ne_of_lt (h.fresh d hd) (List.mem_singleton.mp hnew)
  · intro d hd
    rcases List.mem_append.mp hd with hd | hd
    · exact Nat.lt_succ_of_lt (h.fresh d hd)
    · rw [List.mem_singleton.mp hd]
      exact Nat.lt_succ_self _

/-- What `delDevice` does, to the first device of that name if there is one. -/
theorem delDevice_cases (path : String) (s : InputReader) :
    (delDevice path s).2 = s ∨
      ∃ d ∈ s.deviceList, d.mDeviceName = path ∧ (delDevice path s).2
        = closeFd d.mFd { s with deviceList := s.deviceList.filter fun e => e.this ≠ d.this } := by
  unfold delDevice
  cases hfind : s.deviceList.find? fun device => device.mDeviceName = path with
  | none => exact Or.inl rfl
  | some d =>
      have hname := List.find?_some hfind
      rw [decide_eq_true_eq] at hname
      exact Or.inr ⟨d, List.mem_of_find?_eq_some hfind, hname, closeFd_delEpollFd _⟩

/-- Where the structures agree, a device is its own by either name. -/
theorem this_ne_iff (h : Agree s) {d e : Device} (hd : d ∈ s.deviceList) (he : e ∈ s.deviceList) :
    e.this ≠ d.this ↔ e.mFd ≠ d.mFd := by
  have hthis := List.inj_on_of_nodup_map h.objects
  have hfd := List.inj_on_of_nodup_map h.distinct
  exact ⟨fun hne heq => hne (congrArg Device.this (hfd he hd heq)),
    fun hne heq => hne (congrArg Device.mFd (hthis he hd heq))⟩

theorem agree_delDevice (h : Agree s) (path : String) : Agree (delDevice path s).2 := by
  rcases delDevice_cases path s with heq | ⟨d, hd, _, heq⟩
  · rw [heq]
    exact h
  · rw [heq]
    -- The devices that stay are those with another number.
    have hmem : ∀ e, e ∈ s.deviceList.filter (fun e => e.this ≠ d.this)
        ↔ e ∈ s.deviceList ∧ e.mFd ≠ d.mFd := by
      intro e
      rw [List.mem_filter, decide_eq_true_eq]
      exact and_congr_right fun he => this_ne_iff h hd he
    constructor
    · exact h.distinct.sublist (List.filter_sublist.map _)
    · intro e he
      rcases (hmem e).mp he with ⟨he, hne⟩
      rw [get_closeFd, if_neg hne]
      exact h.opened e he
    · intro fd
      rw [mem_closeFd, h.registered]
      constructor
      · rintro ⟨⟨e, he, rfl⟩, hne⟩
        exact ⟨e, (hmem e).mpr ⟨he, hne⟩, rfl⟩
      · rintro ⟨e, he, rfl⟩
        rcases (hmem e).mp he with ⟨he, hne⟩
        exact ⟨⟨e, he, rfl⟩, hne⟩
    · exact h.objects.sublist (List.filter_sublist.map _)
    · intro e he
      exact h.fresh e ((hmem e).mp he).1

theorem inOrder_of_agree (h : Agree s) : InOrder s := by
  have hunique := List.inj_on_of_nodup_map h.distinct
  refine ⟨h, ?_, ?_, ?_⟩
  · -- What is found has the number, and the number was opened for it.
    intro fd d hfind
    have hfd := List.find?_some hfind
    rw [decide_eq_true_eq] at hfd
    rw [← hfd]
    exact h.opened d (List.mem_of_find?_eq_some hfind)
  · -- A device is found by its number, which no other device has.
    intro d hd
    unfold findDevice
    cases hfind : s.deviceList.find? fun device => device.mFd = d.mFd with
    | none => exact absurd (decide_eq_true rfl) (List.find?_eq_none.mp hfind d hd)
    | some e =>
        have hfd := List.find?_some hfind
        rw [decide_eq_true_eq] at hfd
        rw [hunique (List.mem_of_find?_eq_some hfind) hd hfd]
  · intro path fd hchanged
    rcases delDevice_cases path s with heq | ⟨d, hd, hname, heq⟩
    · rw [heq] at hchanged
      rcases hchanged with hchanged | hchanged
      · exact absurd rfl hchanged
      · exact absurd Iff.rfl hchanged
    · -- Only the device's own number is touched.
      have hfd : fd = d.mFd := by
        by_contra hne
        rw [heq, get_closeFd, if_neg hne, mem_closeFd] at hchanged
        rcases hchanged with hchanged | hchanged
        · exact hchanged rfl
        · exact hchanged ⟨fun hmem => hmem.1, fun hmem => ⟨hmem, hne⟩⟩
      exact ⟨d, hd, hname, by rw [hfd]; exact h.opened d hd⟩

/-- No error event stands before the first plain `EPOLLIN`. -/
def Clean (pending : List (Nat × UInt32)) : Prop :=
  ∀ item ∈ pending.takeWhile fun item => item.2 ≠ epollIn, isError item.2 = false

theorem clean_cons {item : Nat × UInt32} {pending : List (Nat × UInt32)}
    (hin : item.2 ≠ epollIn) :
    Clean (item :: pending) ↔ isError item.2 = false ∧ Clean pending := by
  have htake : (item :: pending).takeWhile (fun item => item.2 ≠ epollIn)
      = item :: pending.takeWhile fun item => item.2 ≠ epollIn :=
    List.takeWhile_cons_of_pos (decide_eq_true hin)
  rw [Clean, htake, List.forall_mem_cons]
  exact Iff.rfl

theorem clean_cons_epollIn (fd : Nat) (pending : List (Nat × UInt32)) :
    Clean ((fd, epollIn) :: pending) := by
  intro item hitem
  exact absurd hitem List.not_mem_nil

/-- A registered descriptor leads to a device. -/
theorem findDevice_registered (h : Agree s) {fd : Nat} (hfd : fd ∈ s.epoll) :
    ∃ d, findDevice fd s = some d := by
  rcases (h.registered fd).mp hfd with ⟨d, hd, rfl⟩
  exact ⟨d, (inOrder_of_agree h).found d hd⟩

/-- As long as no error event is met, reading changes none of the structures. -/
theorem readOnce_of_clean (h : Agree s) {pending : List (Nat × UInt32)}
    (hregistered : ∀ item ∈ pending, item.1 ∈ s.epoll) (hclean : Clean pending) :
    (readOnce pending s).2 = s := by
  induction pending with
  | nil => rfl
  | cons item pending ih =>
      rcases item with ⟨fd, events⟩
      have hrest := fun item hmem => hregistered item (List.mem_cons_of_mem _ hmem)
      by_cases hin : events = epollIn
      · -- The loop ends with the device that has something to read.
        rcases findDevice_registered h (hregistered _ List.mem_cons_self) with ⟨d, hfind⟩
        have herror : ¬ isError epollIn = true := by decide
        rw [readOnce, hin, if_neg herror, if_pos rfl, hfind]
      · rcases (clean_cons hin).mp hclean with ⟨herror, hclean⟩
        rw [readOnce, herror, if_neg Bool.false_ne_true, if_neg hin]
        exact ih hrest hclean

/-- A device of the list has lost its descriptor. -/
def Lost (s : InputReader) : Prop := ∃ d ∈ s.deviceList, get s.files d.mFd = none

/-- Reading opens nothing, so what is lost stays lost. -/
theorem lost_readOnce (h : Lost s) (pending : List (Nat × UInt32)) :
    Lost (readOnce pending s).2 := by
  induction pending generalizing s with
  | nil => exact h
  | cons item pending ih =>
      rcases item with ⟨fd, events⟩
      unfold readOnce
      -- Closing a number can only lose more.
      by_cases herror : isError events = true
      · rw [if_pos herror, closeFd_delEpollFd]
        refine ih ?_
        rcases h with ⟨d, hd, hnone⟩
        refine ⟨d, hd, ?_⟩
        rw [get_closeFd, hnone, ite_self]
      · rw [if_neg herror]
        by_cases hin : events = epollIn
        · rw [if_pos hin]
          cases findDevice fd s with
          | none => exact ih h
          | some d => exact h
        · rw [if_neg hin]
          exact ih h

/-- An error event that is met takes a device's descriptor away. -/
theorem lost_of_not_clean (h : Agree s) {pending : List (Nat × UInt32)}
    (hregistered : ∀ item ∈ pending, item.1 ∈ s.epoll) (hclean : ¬ Clean pending) :
    Lost (readOnce pending s).2 := by
  induction pending with
  | nil => exact absurd (fun item hitem => absurd hitem List.not_mem_nil) hclean
  | cons item pending ih =>
      rcases item with ⟨fd, events⟩
      have hin : events ≠ epollIn := by
        rintro rfl
        exact hclean (clean_cons_epollIn fd pending)
      unfold readOnce
      by_cases herror : isError events = true
      · -- The device of a registered descriptor stays in the list without it.
        rw [if_pos herror, closeFd_delEpollFd]
        refine lost_readOnce ?_ pending
        rcases (h.registered fd).mp (hregistered _ List.mem_cons_self) with ⟨d, hd, heq⟩
        refine ⟨d, hd, ?_⟩
        rw [get_closeFd, if_pos heq]
      · rw [if_neg herror, if_neg hin]
        refine ih (fun item hmem => hregistered item (List.mem_cons_of_mem _ hmem)) fun hrest => ?_
        exact hclean ((clean_cons hin).mpr ⟨Bool.eq_false_iff.mpr herror, hrest⟩)

theorem not_agree_of_lost (h : Lost s) : ¬ Agree s := by
  intro hagree
  rcases h with ⟨d, hd, hnone⟩
  rw [hagree.opened d hd] at hnone
  cases hnone

theorem step_readOnce {pending : List (Nat × UInt32)} {s' : InputReader}
    (h : step s (.readOnce pending) = some s') :
    (∀ item ∈ pending, item.1 ∈ s.epoll) ∧ s' = (readOnce pending s).2 := by
  simp only [step, Option.ite_none_right_eq_some, Option.some.injEq] at h
  exact ⟨h.1.2.2, h.2.symm⟩

theorem inOrder_step {c : ReaderCall} {s' : InputReader} (h : InOrder s)
    (hclean : ∀ pending, c = .readOnce pending → Clean pending) (hstep : step s c = some s') :
    InOrder s' := by
  apply inOrder_of_agree
  -- Each call keeps the three structures in agreement.
  cases c with
  | addDevice strTmp =>
      rw [← Option.some.inj hstep]
      exact agree_openDevice h.agree strTmp
  | delDevice path =>
      rw [← Option.some.inj hstep]
      exact agree_delDevice h.agree path
  | readOnce pending =>
      rcases step_readOnce hstep with ⟨hregistered, rfl⟩
      rw [readOnce_of_clean h.agree hregistered (hclean pending rfl)]
      exact h.agree

/-- Before the first device. -/
def start (files : Table File) : InputReader := ⟨[], [], files, 0⟩

theorem inOrder_start (files : Table File) : InOrder (start files) := by
  apply inOrder_of_agree
  refine ⟨List.nodup_nil, ?_, ?_, List.nodup_nil, ?_⟩
  · exact fun d hd => absurd hd List.not_mem_nil
  · intro fd
    constructor
    · exact fun hmem => absurd hmem List.not_mem_nil
    · rintro ⟨d, hd, _⟩
      exact absurd hd List.not_mem_nil
  · exact fun d hd => absurd hd List.not_mem_nil

/-- The structures agree in every state of a run exactly when `readOnce` gets to
    an error event nowhere in it. -/
theorem inOrder_iff_clean (files : Table File) (calls : List ReaderCall) {t : InputReader}
    (hrun : run step (start files) calls = some t) :
    Always step InOrder (start files) calls
      ↔ ∀ pending, .readOnce pending ∈ calls → Clean pending := by
  have hiff := always_iff_along step InOrder
    (fun s c => (step s c).isSome = true → ∀ pending, c = .readOnce pending → Clean pending)
    (fun s c s' h hclean hstep => inOrder_step h (hclean (by rw [hstep]; rfl)) hstep)
    (fun s c h hbreak => ?_) (start files) calls (inOrder_start files)
  · rw [hiff]
    constructor
    · -- Every call of the run is taken, so the condition is met at every one.
      intro halong pending hmem
      rcases List.append_of_mem hmem with ⟨before, after, rfl⟩
      rw [run_append, Option.bind_eq_some_iff] at hrun
      rcases hrun with ⟨u, hu, hrest⟩
      rw [run_cons, Option.bind_eq_some_iff] at hrest
      rcases hrest with ⟨v, hv, _⟩
      exact halong before _ after u rfl hu (by rw [hv]; rfl) pending rfl
    · intro hclean before c after u heq _ _ pending hc
      refine hclean pending ?_
      rw [heq, hc]
      exact List.mem_append_right _ List.mem_cons_self
  · -- A call outside the condition is a `readOnce` that meets an error event.
    simp only [Classical.not_imp, not_forall, Option.isSome_iff_exists] at hbreak
    rcases hbreak with ⟨⟨s', hs'⟩, pending, rfl, hclean⟩
    rcases step_readOnce hs' with ⟨hregistered, heq⟩
    refine ⟨s', hs', fun horder => ?_⟩
    rw [heq] at horder
    exact not_agree_of_lost (lost_of_not_clean h.agree hregistered hclean) horder.agree

/-- A device is plugged in and read from, an error is reported for it, and a
    second device is plugged in; 0 to 3 are open for other purposes. -/
def reuse : List ReaderCall :=
  [.addDevice "/dev/event0", .readOnce [(4, epollIn)], .readOnce [(4, epollIn ||| epollHup)],
    .addDevice "/dev/event1"]

theorem inOrder_iff_clean_reuse :
    Always step InOrder (start (List.replicate 4 (some .other))) (reuse.take 2) := by
  have hsome : (run step (start (List.replicate 4 (some .other))) (reuse.take 2)).isSome = true := by
    decide
  rcases Option.isSome_iff_exists.mp hsome with ⟨t, ht⟩
  refine (inOrder_iff_clean (List.replicate 4 (some .other)) (reuse.take 2) ht).mpr ?_
  intro pending hmem
  have hpending : pending = [(4, epollIn)] := by
    simp only [reuse, List.take_succ_cons, List.take_zero, List.mem_cons, List.not_mem_nil,
      reduceCtorEq, ReaderCall.readOnce.injEq, false_or, or_false] at hmem
    exact hmem
  rw [hpending]
  exact clean_cons_epollIn 4 []

/-- The number of the first device is given to the second. It is found as the
    first, and unplugging the first closes it. -/
theorem reuse_confused :
    (run step (start (List.replicate 4 (some .other))) reuse).map (fun s =>
      (s.deviceList.map Device.mFd, findDevice 4 s, get s.files 4,
        get (delDevice "/dev/event0" s).2.files 4, (delDevice "/dev/event0" s).2.epoll))
      = some ([4, 4], some ⟨0, 4, "/dev/event0"⟩, some (.device 1), none, []) := by
  decide +kernel

end Input

end ZeusOS
