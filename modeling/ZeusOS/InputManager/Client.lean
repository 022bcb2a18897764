import ZeusOS.Foundation.Overlay
import ZeusOS.InputManager.Dispatch

/-!
# What a Client Prints

The other end of a listener's descriptor: a program that has given one end of a
socket pair to the input manager, and reads `struct CookEvent` after
`struct CookEvent` from the other.

An event crosses as the forty bytes it has in memory. `dispatchEvent` writes
them at once, and the client asks for forty at a time into a variable of its
own, so what is in the socket is a row of events, and a read brings one. But the
client looks at nothing but the sign of what `read` returns. If a read brings
less than an event, the client prints what is then in its variable, partly from
this event and partly from the one before, and it is out of step from then on;
and if a read brings nothing, it prints the last event again.

So what it prints is right exactly if every read brings an event whole, and they
all do where a read brings as much as there is and was asked for.

## Main definitions

* `CookEvent.bytes`: An event in memory.
* `Shown`, `shown`: What is printed of it.
* `Session`, `Turn`, `proceed`: The process and one of its clients.
* `Greedy`: A read that brings all it can.

## Theorems

* `shown_bytes`: An event read back.
* `proceed_follows`: What a step keeps.
* `greedy_whole`: Such reads bring whole events.
* `events_printed`: What is printed, in every run.
-/

namespace ZeusOS

namespace InputManager

open Foundation.Overlay Foundation.Runs Foundation.Words
open ZeusOS.Input (CookEvent)

/-- The words of an event, in the order of its fields. -/
def eventWords (ev : CookEvent) : List UInt32 :=
  [ev.tTime.tvSec, ev.tTime.tvUsec, ev.filePath, ev.iType.toUInt32, ev.iX.toUInt32,
    ev.iY.toUInt32, ev.iKey.toUInt32, ev.iPressure.toUInt32, ev.iTrackID.toUInt32,
    ev.iTouchMajor.toUInt32]

/-- An event in memory. -/
def eventBytes (ev : CookEvent) : List UInt8 := (eventWords ev).flatMap le32

/-- `sizeof(struct CookEvent)`. -/
def cookEventSize : Nat := 40

/-- The fields the client prints. -/
structure Shown where
  iX : Int32
  iY : Int32
  iTrackID : Int32
  iPressure : Int32
  deriving DecidableEq, Repr

def Shown.of (ev : CookEvent) : Shown :=
  { iX := ev.iX, iY := ev.iY, iTrackID := ev.iTrackID, iPressure := ev.iPressure }

/-- A field of the client's variable. -/
def field (tCookEvent : List UInt8) (off : Nat) : Int32 :=
  ((load32 (tCookEvent.drop off)).getD 0).toInt32

/-- What is printed of the client's variable. -/
def shown (tCookEvent : List UInt8) : Shown :=
  { iX := field tCookEvent 16
    iY := field tCookEvent 20
    iTrackID := field tCookEvent 32
    iPressure := field tCookEvent 28 }

theorem eventBytes_length (ev : CookEvent) : (eventBytes ev).length = cookEventSize := rfl

/-- The word behind those in front. -/
theorem load32_behind (front rest : List UInt32) (w : UInt32) {off : Nat}
    (hoff : off = 4 * front.length) :
    load32 (((front ++ w :: rest).flatMap le32).drop off) = some w := by
  have hfront : (front.flatMap le32).length = off := by
    rw [encoded_length le32_length front, hoff]
  rw [List.flatMap_append, List.drop_left' hfront, List.flatMap_cons]
  exact load32_le32 w _

/-- What has been written is printed. -/
theorem shown_bytes (ev : CookEvent) : shown (eventBytes ev) = Shown.of ev := by
  have hword : ∀ (front rest : List UInt32) (w : UInt32) (off : Nat),
      eventWords ev = front ++ w :: rest → off = 4 * front.length →
        field (eventBytes ev) off = w.toInt32 := by
    intro front rest w off hwords hoff
    rw [field, eventBytes, hwords, load32_behind front rest w hoff]
    rfl
  have hX := hword ((eventWords ev).take 4) _ ev.iX.toUInt32 16 rfl rfl
  have hY := hword ((eventWords ev).take 5) _ ev.iY.toUInt32 20 rfl rfl
  have hPressure := hword ((eventWords ev).take 7) _ ev.iPressure.toUInt32 28 rfl rfl
  have hTrackID := hword ((eventWords ev).take 8) _ ev.iTrackID.toUInt32 32 rfl rfl
  simp only [shown, hX, hY, hPressure, hTrackID, Int32.toInt32_toUInt32, Shown.of]

/-- The input manager's process and a client. `socket` is what has been written
    to the client and not been read. Besides, there is what each read has
    brought. -/
structure Session where
  server : Server
  socket : List UInt8
  tCookEvent : List UInt8
  chunks : List (List UInt8)
  printed : List Shown

/-- The client begins with whatever is on its stack. -/
def Session.start (tCookEvent : List UInt8) : Session :=
  { server := Server.start, socket := [], tCookEvent, chunks := [], printed := [] }

/-- What can happen next. -/
inductive Turn where
  | server (move : Move)
  /-- `read` returns this to the client. -/
  | read (iSize : Int)

/-- A step, with the socket of one listener. What is written to it is in the
    socket at once, and whole. -/
def proceed (desc : ListenerDesc) (s : Session) : Turn → Option Session
  | .server move =>
    (act s.server move).map fun server =>
      { s with
        server
        socket := s.socket
          ++ (writesTo desc (server.writes.drop s.server.writes.length)).flatMap eventBytes }
  | .read iSize =>
    -- The client says that there was an error, and goes on.
    if iSize < 0 then some s
    else if iSize ≤ cookEventSize ∧ iSize ≤ s.socket.length then
      let chunk := s.socket.take iSize.toNat
      let tCookEvent := overlay s.tCookEvent chunk
      some { s with
        socket := s.socket.drop iSize.toNat
        tCookEvent
        chunks := s.chunks ++ [chunk]
        printed := s.printed ++ [shown tCookEvent] }
    else none

/-- Nothing that was written is taken back. -/
theorem act_writes {s s' : Server} {m : Move} (h : act s m = some s') :
    ∃ more, s'.writes = s.writes ++ more := by
  cases act_cases h with
  | idles | reads | copies | queues | executes | wakes | serves =>
      exact ⟨[], (List.append_nil _).symm⟩
  | dispatches cv ev d _ _ _ => exact ⟨dispatchEvent ev s.listeners.manager.mListenerDescList, rfl⟩

/-- What a client has read, with what it can read, is what was written to it,
    and it has printed what it read. -/
structure Follows (desc : ListenerDesc) (tCookEvent : List UInt8) (s : Session) : Prop where
  conveys : Conveys s.server
  served : Served s.server
  written : s.chunks.flatten ++ s.socket = (writesTo desc s.server.writes).flatMap eventBytes
  fits : ∀ chunk ∈ s.chunks, chunk.length ≤ cookEventSize
  room : s.tCookEvent = s.chunks.foldl overlay tCookEvent
  printed : s.printed = (images tCookEvent s.chunks).map shown

variable {desc : ListenerDesc} {tCookEvent : List UInt8} {s s' : Session}

theorem follows_start : Follows desc tCookEvent (Session.start tCookEvent) :=
  ⟨conveys_start, served_start, rfl, fun _ h => absurd h List.not_mem_nil, rfl, rfl⟩

theorem proceed_follows (s : Session) (turn : Turn) (s' : Session)
    (hs : Follows desc tCookEvent s) (h : proceed desc s turn = some s') :
    Follows desc tCookEvent s' := by
  cases turn with
  | server move =>
      simp only [proceed, Option.map_eq_some_iff] at h
      rcases h with ⟨server, hact, rfl⟩
      rcases act_writes hact with ⟨more, hmore⟩
      refine ⟨act_conveys _ _ _ hs.conveys hact, act_served _ _ _ hs.served hact, ?_, hs.fits,
        hs.room, hs.printed⟩
      simp only [hmore, List.drop_left, writesTo_append, List.flatMap_append]
      rw [← List.append_assoc, hs.written]
  | read iSize =>
      by_cases herror : iSize < 0
      · rw [proceed, if_pos herror, Option.some.injEq] at h
        rw [← h]
        exact hs
      · simp only [proceed, if_neg herror, Option.ite_none_right_eq_some, Option.some.injEq] at h
        rcases h with ⟨⟨hasked, _⟩, rfl⟩
        refine ⟨hs.conveys, hs.served, ?_, fun chunk hchunk => ?_, ?_, ?_⟩
        · simp only [List.flatten_append, List.flatten_singleton, List.append_assoc,
            List.take_append_drop]
          exact hs.written
        · rcases List.mem_append.mp hchunk with hchunk | hchunk
          · exact hs.fits chunk hchunk
          · rw [List.mem_singleton.mp hchunk, List.length_take]
            omega
        · simp only [List.foldl_append, List.foldl_cons, List.foldl_nil, hs.room]
        · simp only [images_snoc, List.map_append, List.map_cons, List.map_nil, hs.printed,
            hs.room]

/-- Whole reads bring the events in front. -/
theorem printed_of_whole (hs : Follows desc tCookEvent s) (hroom : tCookEvent.length = cookEventSize)
    (hwhole : Whole cookEventSize s.chunks) :
    ∃ later, writesTo desc s.server.writes
        = (writesTo desc s.server.writes).take s.chunks.length ++ later ∧
      s.printed = ((writesTo desc s.server.writes).take s.chunks.length).map Shown.of ∧
        s.socket = later.flatMap eventBytes := by
  rcases records_of_whole (by decide) eventBytes_length hwhole hs.written with
    ⟨later, hrecords, hchunks, hsocket⟩
  refine ⟨later, hrecords, ?_, hsocket⟩
  have hshown : shown ∘ eventBytes = Shown.of := funext shown_bytes
  rw [hs.printed, images_whole (by rw [hroom]; exact hwhole)]
  conv_lhs => rw [hchunks]
  rw [List.map_map, hshown]

/-- A client that has read all there is, and printed no more than there were
    events, has read them whole. -/
theorem whole_of_printed (hs : Follows desc tCookEvent s) (hempty : s.socket = [])
    (hcount : s.printed.length ≤ (writesTo desc s.server.writes).length) :
    Whole cookEventSize s.chunks := by
  have hwritten := congrArg List.length hs.written
  rw [hempty, List.append_nil, encoded_length eventBytes_length] at hwritten
  refine whole_of_count hs.fits ?_ (Nat.le_of_eq hwritten.symm)
  rwa [hs.printed, List.length_map, images_length] at hcount

/-- A read that brings as much as there is, and is asked for, or an error. -/
def Greedy (s : Session) : Turn → Prop
  | .server _ => True
  | .read iSize => 0 ≤ iSize → s.socket ≠ [] ∧ iSize = min cookEventSize s.socket.length

/-- In a socket that has been read in whole events until now there is another
    one, or nothing. -/
theorem greedy_step (hs : Follows desc tCookEvent s) (hwhole : Whole cookEventSize s.chunks)
    {turn : Turn} (hgreedy : Greedy s turn) (h : proceed desc s turn = some s') :
    Whole cookEventSize s'.chunks := by
  cases turn with
  | server move =>
      simp only [proceed, Option.map_eq_some_iff] at h
      rcases h with ⟨server, _, rfl⟩
      exact hwhole
  | read iSize =>
      by_cases herror : iSize < 0
      · rw [proceed, if_pos herror, Option.some.injEq] at h
        rw [← h]
        exact hwhole
      · simp only [proceed, if_neg herror, Option.ite_none_right_eq_some, Option.some.injEq] at h
        rcases h with ⟨_, rfl⟩
        rcases hgreedy (by omega) with ⟨hsome, hsize⟩
        rcases records_of_whole (by decide) eventBytes_length hwhole hs.written with
          ⟨later, _, _, hsocket⟩
        have hlength : cookEventSize ≤ s.socket.length := by
          rcases later with _ | ⟨ev, later⟩
          · exact absurd hsocket hsome
          · rw [hsocket, encoded_length eventBytes_length, List.length_cons, Nat.mul_succ]
            omega
        intro chunk hchunk
        rcases List.mem_append.mp hchunk with hchunk | hchunk
        · exact hwhole chunk hchunk
        · rw [List.mem_singleton.mp hchunk, List.length_take]
          omega

theorem greedy_whole (hs : Follows desc tCookEvent s) (hwhole : Whole cookEventSize s.chunks)
    (turns : List Turn) (hgreedy : Along (proceed desc) Greedy s turns)
    (hrun : run (proceed desc) s turns = some s') : Whole cookEventSize s'.chunks := by
  induction turns generalizing s with
  | nil =>
      rw [run_nil, Option.some.injEq] at hrun
      rw [← hrun]
      exact hwhole
  | cons turn turns ih =>
      rw [run_cons, Option.bind_eq_some_iff] at hrun
      rcases hrun with ⟨s₁, hturn, hrest⟩
      rw [along_cons] at hgreedy
      exact ih (proceed_follows s turn s₁ hs hturn) (greedy_step hs hwhole hgreedy.1 hturn)
        (hgreedy.2 s₁ hturn) hrest

/-- In every run of the input manager and a client, whatever the client's
    variable held before. As long as every read brings a whole event, the client
    has printed the first of the events that were due to it. When it has read
    all there is, it has printed the events that were due, each once and in
    order, exactly if every read brought a whole event; and if it was in the
    list at every dispatch and nothing is on its way, those are all the events
    it wants that were read from devices. Reads that bring all they can bring
    whole events. -/
theorem events_printed (hroom : tCookEvent.length = cookEventSize) (turns : List Turn)
    (hrun : run (proceed desc) (Session.start tCookEvent) turns = some s) :
    (Whole cookEventSize s.chunks → s.printed <+: (due desc s.server.dispatched).map Shown.of) ∧
      (s.socket = [] → (s.printed = (due desc s.server.dispatched).map Shown.of ↔
        Whole cookEventSize s.chunks)) ∧
      ((∀ e ∈ s.server.dispatched, desc ∈ e.2) → Idle s.server →
        due desc s.server.dispatched = s.server.read.filter (wants desc)) ∧
      (Along (proceed desc) Greedy (Session.start tCookEvent) turns →
        Whole cookEventSize s.chunks) := by
  have hs := run_invariant (proceed desc) (Follows desc tCookEvent) proceed_follows _ s turns
    follows_start hrun
  rw [← hs.served.served desc]
  refine ⟨fun hwhole => ?_, fun hempty => ⟨fun hprinted => ?_, fun hwhole => ?_⟩, ?_, ?_⟩
  · rcases printed_of_whole hs hroom hwhole with ⟨_, _, hprinted, _⟩
    rw [hprinted]
    exact (List.take_prefix _ _).map _
  · refine whole_of_printed hs hempty ?_
    rw [hprinted, List.length_map]
  · rcases printed_of_whole hs hroom hwhole with ⟨later, hrecords, hprinted, hsocket⟩
    rw [hempty] at hsocket
    have hlater : later = [] := by
      rcases later with _ | ⟨ev, later⟩
      · rfl
      · have hlength := congrArg List.length hsocket
        rw [encoded_length eventBytes_length, List.length_cons, Nat.mul_succ] at hlength
        exact absurd hlength (by rw [List.length_nil, cookEventSize]; omega)
    rw [hlater, List.append_nil] at hrecords
    rw [hprinted, ← hrecords]
  · intro hregistered hidle
    rw [hs.served.served desc, due_of_registered hregistered, dispatched_of_idle hs.conveys hidle]
  · exact fun hgreedy => greedy_whole follows_start (fun _ h => absurd h List.not_mem_nil) turns
      hgreedy hrun

/-- Two touches are written to the client, which reads the first whole and the
    second in two pieces. -/
def piecemeal : List Turn :=
  [.server (.serve (additionOf 1 5 10)), .server (.readOnce [eventAt 1 3, eventAt 1 4] 2),
    .server (.copy 0x100), .server (.addTask none), .server (.copy 0x200), .server .executeThread,
    .server (.addTask none), .server .dispatchEvent, .read 40, .server .executeThread,
    .server .dispatchEvent, .read (-1), .read 18, .read 22]

/-- The second piece lies over the front of the first, so the last event that is
    printed never was. -/
theorem events_printed_sample :
    ∃ s, run (proceed touchListener) (Session.start (List.replicate 40 0)) piecemeal = some s ∧
      s.socket = [] ∧ s.printed.length = 3 ∧
      (s.printed = (due touchListener s.server.dispatched).map Shown.of ↔
        Whole cookEventSize s.chunks) ∧ ¬ Whole cookEventSize s.chunks := by
  have hparts : (run (proceed touchListener) (Session.start (List.replicate 40 0)) piecemeal).map
      (fun s => (s.socket, s.printed.length, s.chunks.map List.length))
      = some ([], 3, [40, 18, 22]) := by decide +kernel
  rcases Option.map_eq_some_iff.mp hparts with ⟨s, hrun, hparts⟩
  rcases Prod.mk.inj hparts with ⟨hsocket, hparts⟩
  rcases Prod.mk.inj hparts with ⟨hprinted, hchunks⟩
  refine ⟨s, hrun, hsocket, hprinted, ?_, fun hwhole => ?_⟩
  · exact (events_printed (by decide) piecemeal hrun).2.1 hsocket
  · have hpiece : 18 ∈ s.chunks.map List.length := by
      rw [hchunks]
      decide
    rcases List.mem_map.mp hpiece with ⟨chunk, hchunk, hlength⟩
    rw [hwhole chunk hchunk] at hlength
    exact absurd hlength (by decide)

end InputManager

end ZeusOS
