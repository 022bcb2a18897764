import ZeusOS.Calibrate.Calibrate
import ZeusOS.Foundation.Once
import ZeusOS.ThreadPool.Threads

/-!
# The Singletons

Every process has its binder, its reader and its services once, behind a static
pointer: `Binder::getBinder`, `InputReader::getInputReader`,
`InotifyDevice::getInotifyDevice`, `Calibrate::getCalibrate`, and the `get` of
`BnServiceManager`, `BnInputManager` and `BnTestService`. They are all written
alike, with a look at the pointer before the mutex and another one under it. The
accesses of the threads are taken to come one after the other.

A constructor cannot fail. What the system refuses is kept as a field, and a
binder that could not be opened is still the one that everybody is given: its
`mBinderState` points to what `binderOpen` has deleted. So what the first thread
meets decides for all.

Three of the objects hold a descriptor. However many threads race for them, a
process never opens more than these.

## Main definitions

* `Singleton`: The static pointers.
* `binderOpen`: What becomes of the binder's state.
* `construct`: The constructors.
* `descriptors`: What the objects of a process keep open.

## Theorems

* `construct_descriptors`, `descriptors_le`: The descriptors of an object, and
  of all.
* `singletons_once`: Every run of calls.
-/

namespace ZeusOS

namespace Frameworks

open Foundation Foundation.Potential Foundation.Runs

/-- The static pointers, each with a `tMutex` of its class. -/
inductive Singleton where
  | binder
  | serviceManager
  | inputManager
  | testService
  | inputReader
  | inotifyDevice
  | calibrate
  deriving DecidableEq, Repr

def Singleton.all : List Singleton :=
  [binder, serviceManager, inputManager, testService, inputReader, inotifyDevice, calibrate]

/-- What the system answers to a constructor. -/
structure Given where
  /-- Where `new` finds memory. -/
  address : Nat
  /-- What `open`, `epoll_create` or `inotify_init` returns. -/
  fd : Int
  /-- What `BINDER_VERSION` reports, unless the call fails. -/
  protocol_version : Option Int
  /-- Where `mmap` maps, unless it fails. -/
  mapped : Option Nat
  deriving DecidableEq, Repr

/-- `BINDER_CURRENT_PROTOCOL_VERSION`, with `BINDER_IPC_32BIT`. -/
def currentProtocolVersion : Int := 7

def mapsize : Nat := 128 * 1024

/-- Where `mBinderState` points. -/
inductive BinderState where
  | opened (fd : Int) (mapped mapsize : Nat)
  /-- To memory that has been given back. -/
  | deleted
  deriving DecidableEq, Repr

/-- `binderOpen`: the state, and the descriptors it leaves open. The label
    `fail_open` does not close the one whose version differs. -/
def binderOpen (g : Given) : BinderState × List Int :=
  if g.fd < 0 then (.deleted, [])
  else if g.protocol_version ≠ some currentProtocolVersion then (.deleted, [g.fd])
  else
    match g.mapped with
    | none => (.deleted, [])
    | some mapped => (.opened g.fd mapped mapsize, [g.fd])

/-- The fields that a constructor sets. -/
inductive Fields where
  | binder (mBninder : Option Nat) (mBinderState : BinderState)
  | serviceManager
  | inputManager (mInputReaderthread mDispatchthread : ThreadPool.Threads Nat)
  | testService
  | inputReader (mEpollFd : Int)
  | inotifyDevice (mFd : Int) (mDeviceName : String) (mINotifyFd : Int)
  | calibrate (mHasCalibrated mInterchangeXY : Bool)
  deriving DecidableEq, Repr

/-- An object, where it is, and what its constructor has left open. -/
structure Object where
  address : Nat
  fields : Fields
  opened : List Int
  deriving DecidableEq, Repr

/-- The descriptor that a call has returned, unless it has failed. -/
def returned (fd : Int) : List Int := if fd < 0 then [] else [fd]

/-- The constructors. -/
def construct (k : Singleton) (g : Given) : Object :=
  match k with
  | .binder =>
    { address := g.address
      fields := .binder none (binderOpen g).1
      opened := (binderOpen g).2 }
  | .serviceManager => { address := g.address, fields := .serviceManager, opened := [] }
  | .inputManager =>
    let pool := ThreadPool.setPoolSize 1 ThreadPool.Threads.new
    { address := g.address, fields := .inputManager pool pool, opened := [] }
  | .testService => { address := g.address, fields := .testService, opened := [] }
  | .inputReader =>
    { address := g.address, fields := .inputReader g.fd, opened := returned g.fd }
  | .inotifyDevice =>
    { address := g.address
      fields := .inotifyDevice g.fd "InotifyDevice" g.fd
      opened := returned g.fd }
  | .calibrate => { address := g.address, fields := .calibrate false false, opened := [] }

/-- Whether the constructor opens something. -/
def Singleton.opens : Singleton → Bool
  | binder | inputReader | inotifyDevice => true
  | serviceManager | inputManager | testService | calibrate => false

theorem returned_length (fd : Int) : (returned fd).length ≤ 1 := by
  unfold returned
  split
  · exact Nat.zero_le 1
  · exact Nat.le_refl 1

theorem binderOpen_length (g : Given) : (binderOpen g).2.length ≤ 1 := by
  unfold binderOpen
  by_cases hfd : g.fd < 0
  · -- The device could not be opened.
    rw [if_pos hfd]
    exact Nat.zero_le 1
  · rw [if_neg hfd]
    by_cases hversion : g.protocol_version ≠ some currentProtocolVersion
    · -- The driver's version differs, and the descriptor stays.
      rw [if_pos hversion]
      exact Nat.le_refl 1
    · rw [if_neg hversion]
      cases g.mapped with
      | none =>
          -- The label `fail_map` closes it.
          exact Nat.zero_le 1
      | some mapped => exact Nat.le_refl 1

/-- An object keeps one descriptor at most. -/
theorem construct_descriptors (k : Singleton) (g : Given) :
    (construct k g).opened.length ≤ if k.opens then 1 else 0 := by
  cases k with
  | binder => exact binderOpen_length g
  | inputReader | inotifyDevice => exact returned_length g.fd
  | serviceManager | inputManager | testService | calibrate => exact Nat.le_refl 0

/-- What the objects that were made keep open. -/
def descriptors {ι : Type} (s : Once.State ι Singleton Object) : Nat :=
  total (fun k => total (fun o : Object => o.opened.length) (s.made k)) Singleton.all

/-- Where nothing is made twice, three descriptors are open. -/
theorem descriptors_le {ι : Type} {s : Once.State ι Singleton Object}
    (hlength : ∀ k, (s.made k).length ≤ 1)
    (hbuilt : ∀ k, ∀ o ∈ s.made k, ∃ g, o = construct k g) : descriptors s ≤ 3 := by
  have hone : ∀ k ∈ Singleton.all, total (fun o : Object => o.opened.length) (s.made k)
      ≤ if k.opens then 1 else 0 := by
    intro k _
    rcases hmade : s.made k with _ | ⟨o, l⟩
    · -- There is no such object yet.
      exact Nat.zero_le _
    · -- There is one, and no second.
      have hl : l = [] := by
        have := hlength k
        rw [hmade, List.length_cons] at this
        exact List.length_eq_zero_iff.mp (by omega)
      rcases hbuilt k o (by rw [hmade]; exact List.mem_cons_self) with ⟨g, rfl⟩
      rw [hl]
      exact construct_descriptors k g
  exact total_mono hone

instance : Nonempty Given := ⟨{ address := 0, fd := 0, protocol_version := none, mapped := none }⟩

/-- Whatever calls any number of threads make, and however their accesses take
    turns: an object is constructed once at most, every call for it returns
    that one, and no more than three descriptors are open. If from then on no
    call begins, those under way come to an end after at most five accesses
    each, and nobody is in the way of the last. -/
theorem singletons_once {n : Nat} (calls : List (Once.Act (Fin n) Singleton Given))
    {s : Once.State (Fin n) Singleton Object}
    (hrun : run (Once.step construct) (Once.State.start (Fin n) Singleton Object) calls = some s) :
    (∀ k, (s.made k).length ≤ 1) ∧
      (∀ k r, (k, r) ∈ s.got → ∃ g, r = some (construct k g) ∧ s.made k = [construct k g]) ∧
      descriptors s ≤ 3 ∧
      ∀ more : List (Once.Act (Fin n) Singleton Given), (∀ a ∈ more, a.begins = false) →
        ∀ u, run (Once.step construct) s more = some u → more.length ≤ 5 * n ∧
          ((∀ t, u.place t = .outside) ∨
            ∃ a : Once.Act (Fin n) Singleton Given,
              a.begins = false ∧ (Once.step construct u a).isSome = true) := by
  rcases Once.once calls hrun with ⟨hlength, hbuilt, hgot⟩
  refine ⟨hlength, hgot, descriptors_le hlength hbuilt, fun more hmore u hlater => ?_⟩
  exact Once.calls_finish calls hrun more hmore hlater

/-- Memory, a descriptor, and a driver of the right version. -/
def sampleGiven : Given :=
  { address := 4096, fd := 3, protocol_version := some 7, mapped := some 8192 }

/-- Both threads find no binder, and the second is given the one that the first
    has made. The first makes a reader meanwhile. -/
def sampleRace : List (Once.Act (Fin 2) Singleton Given) :=
  [.look 0 .binder, .look 1 .binder, .acquire 0, .again 0 sampleGiven, .publish 0, .unlock 0,
    .acquire 1, .back 0, .look 0 .inputReader, .again 1 sampleGiven, .acquire 0, .unlock 1,
    .again 0 sampleGiven, .back 1]

theorem singletons_once_sample :
    ∃ s : Once.State (Fin 2) Singleton Object,
      run (Once.step construct) (Once.State.start (Fin 2) Singleton Object) sampleRace = some s ∧
      s.got.map Prod.fst = [.binder, .binder] ∧
      (∀ k r, (k, r) ∈ s.got → ∃ g, r = some (construct k g) ∧ s.made k = [construct k g]) ∧
      descriptors s ≤ 3 ∧
      ∀ more : List (Once.Act (Fin 2) Singleton Given), (∀ a ∈ more, a.begins = false) →
        ∀ u, run (Once.step construct) s more = some u → more.length ≤ 5 * 2 := by
  have hcalls : (run (Once.step construct) (Once.State.start (Fin 2) Singleton Object) sampleRace).map
      (fun s => s.got.map Prod.fst) = some [.binder, .binder] := by
    decide +kernel
  rcases Option.map_eq_some_iff.mp hcalls with ⟨s, hrun, hgot⟩
  rcases singletons_once sampleRace hrun with ⟨_, hsame, hdescriptors, hends⟩
  exact ⟨s, hrun, hgot, hsame, hdescriptors, fun more hmore u hlater => (hends more hmore u hlater).1⟩

end Frameworks

end ZeusOS
