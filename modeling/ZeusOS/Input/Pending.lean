import ZeusOS.Input.Mirror
import ZeusOS.Input.Records

/-!
# Events That Are Pending

Runs in which directories are added and deleted, events are queued, and
`process` is called, in any order. The kernel queues events of active watches
only, but what is queued stays when the watch ends. Both handlers search the
list for the descriptor of the event and follow what they have found, without a
look at whether they have found anything.

Adding a directory takes no entry out of the list, and neither does `process`.
So what matters is deleting: it must not take out the last entry for a
descriptor while an event of it is pending. `delWatchDirectory` does not know
what is pending, and there is no way for it to know.

## Main definitions

* `Inotify`: The active watches and the queue.
* `Happening`, `happens`: The machine.
* `AllFound`: Every event that is pending finds its directory.
* `Spares`, `Kept`: A deletion that takes nothing away from a pending event.

## Theorems

* `allFound_del_iff`: What one deletion does.
* `allFound_iff_kept`: When every event finds its directory.
-/

namespace ZeusOS

namespace Input

namespace InotifyDevice

open Foundation.Words Foundation.Walks Foundation.Runs

/-- The kernel's side: the descriptors that are active, and the records that
    have not been read yet. -/
structure Inotify where
  active : List Int
  queue : List Record

section

variable (answer : Path → Inotify → Int)

/-- `inotify_add_watch`. What it returns is active then, if it is not negative. -/
def watchAdd (p : Path) (k : Inotify) : Int × Inotify :=
  (answer p k, if answer p k < 0 then k else { k with active := answer p k :: k.active })

/-- `inotify_rm_watch`. The queue stays as it is. -/
def watchRemove (iWd : Int) (k : Inotify) : Inotify :=
  { k with active := k.active.filter fun wd => wd ≠ iWd }

def inotifySystem (files : Files) : System Inotify :=
  { inotifyAddWatch := watchAdd answer
    inotifyRmWatch := watchRemove
    stat := files.stat
    opendir := files.opendir }

/-- What the system says while an event is handled, on this kernel. -/
def Moment.on (m : Moment Inotify) : Moment Inotify :=
  { m with inotifyAddWatch := watchAdd answer, inotifyRmWatch := watchRemove }

/-- What may happen: a call that adds or deletes directories, an event, or a
    call of `process`, for which the kernel hands over the next few records. -/
inductive Happening where
  | call (c : WatchCall)
  | event (r : Record)
  | process (count : Nat) (fuel : Nat) (errno : Int32) (moments : Nat → Moment Inotify)
      (cookEvent : List CookEvent)

/-- The state in which `process` goes through what it has read. -/
def afterRead (count : Nat) (cookEvent : List CookEvent) (w : Watcher Inotify) : Notified Inotify :=
  { watcher := { w with kernel := { w.kernel with queue := w.kernel.queue.drop count } }
    cookEvent := cookEvent
    devices := []
    handled := [] }

def processCall (w : Watcher Inotify) (count fuel : Nat) (errno : Int32)
    (moments : Nat → Moment Inotify) (cookEvent : List CookEvent) :
    Except Fault (Int × Notified Inotify) :=
  process fuel (readRecords (w.kernel.queue.take count) errno) (fun i => (moments i).on answer)
    (afterRead count cookEvent w)

/-- An event with a name is one of an active watch. The kernel hands over no
    more than fits into the buffer. -/
def happens (w : Watcher Inotify) : Happening → Option (Watcher Inotify)
  | .call c => callOn (inotifySystem answer) w c
  | .event r =>
    if r.name = [] ∨ toInt r.wd ∈ w.kernel.active then
      some { w with kernel := { w.kernel with queue := w.kernel.queue ++ [r] } }
    else none
  | .process count fuel errno moments cookEvent =>
    if ((w.kernel.queue.take count).flatMap Record.bytes).length ≤ 512 then
      match processCall answer w count fuel errno moments cookEvent with
      | .ok p => some p.2.watcher
      | .error _ => none
    else none

/-- A call of `process` in which a search comes to the end of the list. -/
def RunsOff (w : Watcher Inotify) : Happening → Prop
  | .process count fuel errno moments cookEvent =>
    ((w.kernel.queue.take count).flatMap Record.bytes).length ≤ 512 ∧
      processCall answer w count fuel errno moments cookEvent = .error .atEnd
  | .call _ | .event _ => False

/-- Nothing is watched. -/
def unwatched : Watcher Inotify :=
  { kernel := { active := [], queue := [] }, directoryPathDescList := [], removed := [] }

/-- Every event that is pending finds its directory. -/
def AllFound (w : Watcher Inotify) : Prop := ∀ r ∈ w.kernel.queue, r.Found w

/-- The descriptor that is deleted with this path has no event with a name
    pending, or it has another entry. -/
def Spares (w : Watcher Inotify) (d : Path) : Prop :=
  ∀ desc, findPath d w = some desc → ∀ r ∈ w.kernel.queue, r.name ≠ [] → toInt r.wd = desc.iWd →
    2 ≤ w.directoryPathDescList.countP fun e => e.iWd = desc.iWd

/-- So is every deletion of a call, one after another. -/
def Kept (w : Watcher Inotify) : Happening → Prop
  | .call (.delWatchDirectory d) => Spares w d
  | .call (.delWatchDirectory_R fuel files d) =>
    ∀ vs, trail (visitDel (inotifySystem answer files)) fuel d w = some vs →
      Along (fun w q => some (delWatchDirectory (inotifySystem answer files) q w)) Spares w vs
  | .call (.addWatchDirectory _) | .call (.addWatchDirectory_R _ _ _) | .event _
  | .process _ _ _ _ _ => True

end

/-- Every watch has an entry. -/
def Entered (w : Watcher Inotify) : Prop :=
  ∀ wd ∈ w.kernel.active, ∃ desc ∈ w.directoryPathDescList, desc.iWd = wd

/-- What both kinds of calls keep, whatever is done. -/
structure Sound (w : Watcher Inotify) : Prop where
  entered : Entered w
  found : AllFound w

variable (answer : Path → Inotify → Int)

theorem sound_unwatched : Sound unwatched :=
  { entered := fun _ h => absurd h List.not_mem_nil
    found := fun _ h => absurd h List.not_mem_nil }

/-- A directory that is added gets an entry if it gets a watch. -/
theorem entered_add {sys : System Inotify} (hadd : sys.inotifyAddWatch = watchAdd answer) (q : Path)
    {w : Watcher Inotify} (h : Entered w) :
    Entered (addWatchDirectory sys q w).2 ∧
      (addWatchDirectory sys q w).2.kernel.queue = w.kernel.queue := by
  rcases addWatchDirectory_spec sys q w with ⟨hrefused, haccepted⟩
  rw [hadd] at hrefused haccepted
  by_cases hneg : answer q w.kernel < 0
  · -- Neither a watch nor an entry.
    rw [hrefused hneg, watchAdd, if_pos hneg]
    exact ⟨h, rfl⟩
  · rw [haccepted hneg, watchAdd, if_neg hneg]
    refine ⟨fun wd hwd => ?_, rfl⟩
    rcases List.mem_cons.mp hwd with rfl | hwd
    · exact ⟨_, List.mem_append_right _ (List.mem_singleton_self _), rfl⟩
    · rcases h wd hwd with ⟨desc, hdesc, heq⟩
      exact ⟨desc, List.mem_append_left _ hdesc, heq⟩

theorem sound_add {sys : System Inotify} (hadd : sys.inotifyAddWatch = watchAdd answer) (q : Path)
    {w : Watcher Inotify} (h : Sound w) : Sound (addWatchDirectory sys q w).2 := by
  rcases entered_add answer hadd q h.entered with ⟨hentered, hqueue⟩
  refine { entered := hentered, found := fun r hr => ?_ }
  rw [hqueue] at hr
  exact found_of_extends (addWatchDirectory_extends sys q w) (h.found r hr)

/-- What is queued stays when a watch ends. -/
theorem del_queue (files : Files) (q : Path) (w : Watcher Inotify) :
    (delWatchDirectory (inotifySystem answer files) q w).kernel.queue = w.kernel.queue := by
  unfold delWatchDirectory
  cases findPath q w with
  | none => rfl
  | some desc => rfl

/-- What one deletion leaves. -/
theorem del_cases (files : Files) (q : Path) (w : Watcher Inotify) :
    (findPath q w = none ∧ delWatchDirectory (inotifySystem answer files) q w = w) ∨
    ∃ desc before after, findPath q w = some desc ∧
      w.directoryPathDescList = before ++ desc :: after ∧
      (delWatchDirectory (inotifySystem answer files) q w).directoryPathDescList = before ++ after ∧
      (delWatchDirectory (inotifySystem answer files) q w).kernel = watchRemove desc.iWd w.kernel := by
  unfold delWatchDirectory
  cases hfind : findPath q w with
  | none => exact Or.inl ⟨rfl, rfl⟩
  | some desc =>
      rw [findPath] at hfind
      rcases eraseP_of_find? hfind with ⟨_, before, after, hlist, herase⟩
      exact Or.inr ⟨desc, before, after, rfl, hlist, herase, rfl⟩

/-- A watch whose entry is deleted is ended. -/
theorem entered_del (files : Files) (q : Path) {w : Watcher Inotify} (h : Entered w) :
    Entered (delWatchDirectory (inotifySystem answer files) q w) := by
  rcases del_cases answer files q w with ⟨_, hsame⟩ | ⟨desc, before, after, _, hlist, hlist', hkernel⟩
  · rwa [hsame]
  · intro wd hwd
    rw [hkernel] at hwd
    rcases List.mem_filter.mp hwd with ⟨hactive, hne⟩
    rcases h wd hactive with ⟨e, he, rfl⟩
    rw [hlist, List.mem_append, List.mem_cons] at he
    rw [hlist']
    rcases he with he | rfl | he
    · exact ⟨e, List.mem_append_left _ he, rfl⟩
    · -- The entry taken out was for the watch that is ended.
      exact absurd rfl (of_decide_eq_true hne)
    · exact ⟨e, List.mem_append_right _ he, rfl⟩

/-- Nothing comes to be found by a deletion. -/
theorem allFound_of_del (files : Files) (q : Path) {w : Watcher Inotify}
    (h : AllFound (delWatchDirectory (inotifySystem answer files) q w)) : AllFound w := by
  rcases del_cases answer files q w with ⟨_, hsame⟩ | ⟨desc, before, after, _, hlist, hlist', _⟩
  · rwa [hsame] at h
  · intro r hr hname
    rw [← del_queue answer files q] at hr
    rcases h r hr hname with ⟨e, he, hwd⟩
    rw [hlist', List.mem_append] at he
    rw [hlist]
    refine ⟨e, ?_, hwd⟩
    rcases he with he | he
    · exact List.mem_append_left _ he
    · exact List.mem_append_right _ (List.mem_cons_of_mem _ he)

/-- There is another entry with a descriptor if and only if there is one when the
    first has been taken out. -/
theorem two_le_countP_iff (before after : List DirectoryPathDesc) (desc : DirectoryPathDesc) :
    2 ≤ (before ++ desc :: after).countP (fun e => e.iWd = desc.iWd) ↔
      ∃ e ∈ before ++ after, e.iWd = desc.iWd := by
  have hpos := List.countP_pos_iff (p := fun e => decide (e.iWd = desc.iWd)) (l := before ++ after)
  simp only [decide_eq_true_eq] at hpos
  rw [← hpos, List.countP_append, List.countP_append, List.countP_cons]
  simp only [decide_true, if_true]
  omega

/-- One deletion leaves every event its directory if and only if it spares the
    pending ones. -/
theorem allFound_del_iff (files : Files) (q : Path) {w : Watcher Inotify} (h : AllFound w) :
    AllFound (delWatchDirectory (inotifySystem answer files) q w) ↔ Spares w q := by
  rcases del_cases answer files q w with ⟨hnone, hsame⟩ |
    ⟨desc, before, after, hfind, hlist, hlist', _⟩
  · -- A path that is not in the list deletes nothing.
    rw [hsame]
    refine iff_of_true h fun desc hfind => ?_
    rw [hnone] at hfind
    cases hfind
  · have hcount := two_le_countP_iff before after desc
    rw [← hlist] at hcount
    constructor
    · intro hafter desc' hfind' r hr hname hwd
      rw [hfind, Option.some.injEq] at hfind'
      subst hfind'
      rw [hcount]
      rw [← del_queue answer files q] at hr
      rcases hafter r hr hname with ⟨e, he, hewd⟩
      rw [hlist'] at he
      exact ⟨e, he, hewd.trans hwd⟩
    · intro hspares r hr hname
      rw [del_queue] at hr
      rcases h r hr hname with ⟨e, he, hewd⟩
      rw [hlist']
      by_cases hwd : toInt r.wd = desc.iWd
      · -- It is another entry with its descriptor that the event finds.
        rcases hcount.mp (hspares desc hfind r hr hname hwd) with ⟨e', he', hewd'⟩
        exact ⟨e', he', hewd'.trans hwd.symm⟩
      · rw [hlist, List.mem_append, List.mem_cons] at he
        rcases he with he | rfl | he
        · exact ⟨e, List.mem_append_left _ he, hewd⟩
        · exact absurd hewd.symm hwd
        · exact ⟨e, List.mem_append_right _ he, hewd⟩

/-- Some deletions, one after another. -/
theorem allFound_visited_iff (files : Files) (vs : List Path) {w : Watcher Inotify} (h : Sound w) :
    Entered (visited (visitDel (inotifySystem answer files)) vs w) ∧
      (AllFound (visited (visitDel (inotifySystem answer files)) vs w) ↔
        Along (fun w q => some (delWatchDirectory (inotifySystem answer files) q w)) Spares w vs) := by
  induction vs generalizing w with
  | nil => exact ⟨h.entered, iff_of_true h.found (along_nil _ _ _)⟩
  | cons q vs ih =>
      have hentered := entered_del answer files q h.entered
      have hfirst := allFound_del_iff answer files q h.found
      have hcons : visited (visitDel (inotifySystem answer files)) (q :: vs) w
          = visited (visitDel (inotifySystem answer files)) vs
            (delWatchDirectory (inotifySystem answer files) q w) := rfl
      rw [along_cons, hcons]
      by_cases hspares : Spares w q
      · rcases ih { entered := hentered, found := hfirst.mpr hspares } with ⟨hentered', hrest⟩
        refine ⟨hentered', hrest.trans ⟨fun halong => ⟨hspares, ?_⟩, fun halong => halong.2 _ rfl⟩⟩
        intro w' hw'
        cases hw'
        exact halong
      · -- What is lost with this deletion does not come back.
        refine ⟨visited_keeps (P := Entered) (fun p w hw => entered_del answer files p hw) vs hentered,
          iff_of_false ?_ fun halong => hspares halong.1⟩
        refine visited_keeps (P := fun w => ¬ AllFound w) ?_ vs (fun hfound => hspares (hfirst.mp hfound))
        exact fun p w hw hfound => hw (allFound_of_del answer files p hfound)

/-- Where nothing is deleted, everything is kept. -/
theorem sound_add_R (fuel : Nat) (files : Files) (d : Path) {w w' : Watcher Inotify} (h : Sound w)
    (hcall : (addWatchDirectory_R (inotifySystem answer files) fuel d w).map Prod.snd = some w') :
    Sound w' := by
  rw [addWatchDirectory_R_walk] at hcall
  exact walk_keeps (P := Sound) (fun q u hu => sound_add answer rfl q hu) hcall (sound_add answer rfl d h)

theorem sound_event {r : Record} {w : Watcher Inotify} (h : Sound w)
    (hr : r.name = [] ∨ toInt r.wd ∈ w.kernel.active) :
    Sound { w with kernel := { w.kernel with queue := w.kernel.queue ++ [r] } } := by
  refine { entered := h.entered, found := fun r' hr' => ?_ }
  rcases List.mem_append.mp hr' with hr' | hr'
  · exact h.found r' hr'
  · rw [List.mem_singleton.mp hr']
    intro hname
    exact h.entered _ (hr.resolve_left hname)

/-- `process` reads some of the queue, and adds directories. -/
theorem sound_process {count fuel : Nat} {errno : Int32} {moments : Nat → Moment Inotify}
    {cookEvent : List CookEvent} {w : Watcher Inotify} {p : Int × Notified Inotify} (h : Sound w)
    (hsize : ((w.kernel.queue.take count).flatMap Record.bytes).length ≤ 512)
    (hcall : processCall answer w count fuel errno moments cookEvent = .ok p) :
    Sound p.2.watcher := by
  have hread : Sound (afterRead count cookEvent w).watcher :=
    { entered := h.entered, found := fun r hr => h.found r (List.mem_of_mem_drop hr) }
  rcases process_ok_cases hsize hcall with ⟨n, hnothing⟩ | hloop
  · -- Nothing was read.
    cases hnothing
    exact hread
  · exact recordLoop_keeps (P := Sound) (fun i q u hu => sound_add answer rfl q hu) hloop hread

/-- Where every event finds its directory, no search comes to the end. -/
theorem runsOff_false {w : Watcher Inotify} (h : AllFound w) (e : Happening) : ¬ RunsOff answer w e := by
  cases e with
  | call c => exact fun hoff => hoff
  | event r => exact fun hoff => hoff
  | process count fuel errno moments cookEvent =>
      rintro ⟨hsize, hcall⟩
      rcases process_ok_cases hsize hcall with ⟨n, hnothing⟩ | hloop
      · cases hnothing
      · refine recordLoop_found fuel _ 0 (fun r hr => ?_) hloop
        exact h r (List.mem_of_mem_take hr)

/-- And where the next event has lost its directory, the next call runs off. -/
theorem runsOff_of_lost {w : Watcher Inotify} {r : Record} {rest : List Record}
    (hqueue : w.kernel.queue = r :: rest) (hlost : ¬ r.Found w) (count fuel : Nat) (errno : Int32)
    (moments : Nat → Moment Inotify) (cookEvent : List CookEvent)
    (hsize : ((w.kernel.queue.take (count + 1)).flatMap Record.bytes).length ≤ 512) :
    RunsOff answer w (.process (count + 1) fuel errno moments cookEvent) := by
  have hsome : w.kernel.queue.take (count + 1) ≠ [] := by
    rw [hqueue, List.take_succ_cons]
    exact List.cons_ne_nil _ _
  refine ⟨hsize, ?_⟩
  rw [processCall, process_records fuel errno hsize hsome, hqueue, List.take_succ_cons, recordLoop,
    handleRecord_atEnd _ fuel 0 (show ¬ r.Found (afterRead (count + 1) cookEvent w).watcher from hlost)]
  rfl

/-- One step that is kept. -/
theorem sound_happens {w w' : Watcher Inotify} {e : Happening} (h : Sound w) (hkept : Kept answer w e)
    (hstep : happens answer w e = some w') : Sound w' := by
  cases e with
  | call c =>
      cases c with
      | addWatchDirectory d =>
          cases hstep
          exact sound_add answer rfl d h
      | delWatchDirectory d =>
          cases hstep
          exact { entered := entered_del answer noFiles d h.entered
                  found := (allFound_del_iff answer noFiles d h.found).mpr hkept }
      | addWatchDirectory_R fuel files d => exact sound_add_R answer fuel files d h hstep
      | delWatchDirectory_R fuel files d =>
          -- The recursion is the deletions on its trail.
          rw [happens, callOn, delWatchDirectory_R_walk, walk_eq_trail, Option.map_eq_some_iff] at hstep
          rcases hstep with ⟨vs, hvs, rfl⟩
          rcases allFound_visited_iff answer files vs h with ⟨hentered, hfound⟩
          exact { entered := hentered, found := hfound.mpr (hkept vs hvs) }
  | event r =>
      rw [happens] at hstep
      split at hstep
      · rename_i hr
        cases hstep
        exact sound_event h hr
      · cases hstep
  | process count fuel errno moments cookEvent =>
      rw [happens] at hstep
      split at hstep
      · rename_i hsize
        split at hstep
        · rename_i p hcall
          cases hstep
          exact sound_process answer h hsize hcall
        · cases hstep
      · cases hstep

/-- And one that is not. -/
theorem lost_happens {w : Watcher Inotify} {e : Happening} (h : Sound w) (hkept : ¬ Kept answer w e) :
    ∃ w', happens answer w e = some w' ∧ ¬ AllFound w' := by
  cases e with
  | call c =>
      cases c with
      | addWatchDirectory d => exact absurd trivial hkept
      | delWatchDirectory d =>
          exact ⟨_, rfl, fun hfound => hkept ((allFound_del_iff answer noFiles d h.found).mp hfound)⟩
      | addWatchDirectory_R fuel files d => exact absurd trivial hkept
      | delWatchDirectory_R fuel files d =>
          -- Some deletion on the trail does not spare what is pending.
          rcases not_forall.mp hkept with ⟨vs, hvs⟩
          rcases Classical.not_imp.mp hvs with ⟨htrail, hlost⟩
          refine ⟨visited (visitDel (inotifySystem answer files)) vs w, ?_, fun hfound => hlost ?_⟩
          · rw [happens, callOn, delWatchDirectory_R_walk, walk_eq_trail, htrail, Option.map_some]
          · exact (allFound_visited_iff answer files vs h).2.mp hfound
  | event r => exact absurd trivial hkept
  | process count fuel errno moments cookEvent => exact absurd trivial hkept

/-- In every state of a run every pending event finds its directory if and only
    if no deletion takes the last entry of a descriptor away that has an event
    pending; and in such a run no search comes to the end of the list. -/
theorem allFound_iff_kept (es : List Happening) :
    (Always (happens answer) AllFound unwatched es ↔ Along (happens answer) (Kept answer) unwatched es) ∧
      (Along (happens answer) (Kept answer) unwatched es →
        Along (happens answer) (fun w e => ¬ RunsOff answer w e) unwatched es) := by
  have hiff := always_iff_along_of (happens answer) Sound AllFound (Kept answer) (fun w h => h.found)
    (fun w e w' h hkept hstep => sound_happens answer h hkept hstep)
    (fun w e h hkept => lost_happens answer h hkept) unwatched es sound_unwatched
  refine ⟨hiff, fun halong => ?_⟩
  exact along_of_always (fun _ e hw => runsOff_false answer hw e) (hiff.mpr halong)

/-- A file has been created in the directory with descriptor 1. -/
def createdIn : Record :=
  { wd := 1, mask := inCreate, cookie := 0, name := [0x62], zeros := 15
    string := by decide
    ended := by decide }

/-- Every directory gets descriptor 1. -/
def oneDescriptor (_ : Path) (_ : Inotify) : Int := 1

/-- Nothing is there and nothing can be opened. -/
def idle (_ : Nat) : Moment Inotify :=
  { toSystem := inotifySystem oneDescriptor noFiles
    openDevice := fun _ => -1
    delDevice := fun _ => -1
    now := { tvSec := 0, tvUsec := 0 }
    strTmp := 0 }

/-- A directory is watched, something is created in it, and the watch is ended
    before the event has been read. -/
def readTooLate : List Happening :=
  [.call (.addWatchDirectory [slash, 0x61]), .event createdIn, .call (.delWatchDirectory [slash, 0x61]),
    .process 1 0 0 idle []]

theorem readTooLate_runsOff :
    ¬ Along (happens oneDescriptor) (fun w e => ¬ RunsOff oneDescriptor w e) unwatched readTooLate := by
  intro halong
  have hrun : run (happens oneDescriptor) unwatched
      [.call (.addWatchDirectory [slash, 0x61]), .event createdIn, .call (.delWatchDirectory [slash, 0x61])]
      = some
        { kernel := { active := [], queue := [createdIn] }
          directoryPathDescList := []
          removed := [1] } := rfl
  refine halong _ (.process 1 0 0 idle []) [] _ rfl hrun ?_
  refine runsOff_of_lost oneDescriptor (r := createdIn) rfl ?_ 0 0 0 idle [] (by decide)
  intro hfound
  rcases hfound (List.cons_ne_nil _ _) with ⟨_, hdesc, _⟩
  exact absurd hdesc List.not_mem_nil

end InotifyDevice

end Input

end ZeusOS
