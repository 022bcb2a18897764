import ZeusOS.Binder.Looper
import ZeusOS.Foundation.Footprint

/-!
# Where the Parser Looks

A read may hold any bytes at all. The parser reads a command word wherever it
is not yet at the end, and the payload of three commands; only two of those it
checks for room. What it reads is followed here turn by turn, from the bytes
alone: what the handlers do has no part in it, and `parseLoop_scan` says that
the parser carries out just the turns that are listed. What is listed as read is
the parser's footprint.

A command word cut short is read past the end, and so is the cookie of a death.
A reference command cut short is stepped over as if it were whole. There is
nothing else that can go wrong: `scan_tidy_iff` describes the bytes for which
nothing does.

## Main definitions

* `payloadSize`: What follows a command word the parser knows.
* `Turn`, `scan`: The turns of the parse loop over some bytes.
* `Turn.reads`, `Turn.Cut`, `Turn.Performed`: What a turn looks at and does.
* `Tidy`: Turns that stay inside and carry out nothing that is cut.
* `Whole`: Whole commands, up to where the parser may stop.

## Theorems

* `parseLoop_scan`: Parsing is carrying out the turns.
* `parseLoop_turns`: More turns than bytes make no difference.
* `fetch_footprint`, `parseLoop_footprint`: The lists of reads are complete.
* `fetch_size`: What the payload of a command takes.
* `scan_tidy_iff`: When the turns are tidy.
* `parse_confined_iff`: When the parser reads inside.
* `whole_encodeAll`: A read of commands is whole.
-/

namespace ZeusOS

namespace Binder

open Foundation Foundation.Footprint Foundation.Words

/-- The size of the payload of a command, if the parser has a case for it. -/
def payloadSize : Case → Option Nat
  | .skip size => some size
  | .spawnLooper => some 0
  | .transaction => some Txn.wireSize
  | .reply => some Txn.wireSize
  | .deadBinder => some 4
  | .failed => some 0
  | .default => none

/-- A turn of the parse loop, at some place in the bytes given. -/
inductive Turn where
  /-- There is nothing to be read where the command word should be. -/
  | unreadable (off : Nat)
  /-- A command word was read, and this is what became of its payload. -/
  | command (off left : Nat) (cmd : UInt32) (fetched : Option (Option (Action × Nat)))
  deriving DecidableEq, Repr

/-- The turns over the bytes from `off` on, of which there are `left`. The
    handlers are taken to return. -/
def scan : Nat → Nat → List UInt8 → Nat → List Turn
  | 0, _, _, _ => []
  | turns + 1, off, ptr, left =>
    if left = 0 then []
    else match load32 ptr with
      | none => [.unreadable off]
      | some cmd =>
        .command off left cmd (fetch cmd (ptr.drop 4) (left - 4)) ::
          match fetch cmd (ptr.drop 4) (left - 4) with
          | some (some (_, size)) =>
            scan turns (off + (4 + size)) (ptr.drop (4 + size)) (left - (4 + size))
          | _ => []

namespace Turn

/-- The payload that is looked at, as a place and a size. A transaction is
    looked at only if there is room for it. -/
def payloadReads (off left : Nat) : Case → List (Nat × Nat)
  | .transaction => if left < Txn.wireSize then [] else [(off, Txn.wireSize)]
  | .reply => if left < Txn.wireSize then [] else [(off, Txn.wireSize)]
  | .deadBinder => [(off, 4)]
  | _ => []

/-- What a turn reads. -/
def reads : Turn → List (Nat × Nat)
  | unreadable off => [(off, 4)]
  | command off left cmd _ => (off, 4) :: payloadReads (off + 4) (left - 4) (switchCase cmd)

/-- The payload of the command goes on behind the end. -/
def Cut (size : Nat) : Turn → Prop
  | unreadable _ => False
  | command off _ cmd _ => ∃ n, payloadSize (switchCase cmd) = some n ∧ size < off + 4 + n

/-- The command is carried out, and the parser goes on behind it. -/
def Performed : Turn → Prop
  | command _ _ _ (some (some _)) => True
  | _ => False

end Turn

variable {σ : Type}

/-- Carrying out the turns. -/
def carryOut (S : Services σ) (mem : Mapping) : List Turn → Looper σ → Option (List Event × Looper σ)
  | [], l => some ([], l)
  | .unreadable _ :: _, _ => none
  | .command _ _ _ none :: _, _ => none
  | .command _ _ _ (some none) :: _, l => some ([], l.fail)
  | .command _ _ _ (some (some (action, _))) :: turns, l =>
    (perform S mem l action).bind fun (evs, l) =>
      (carryOut S mem turns l).map fun (evs', l) => (evs ++ evs', l)

/-- Parsing is carrying out the turns. -/
theorem parseLoop_scan (S : Services σ) (mem : Mapping) (turns off left : Nat) (ptr : List UInt8)
    (l : Looper σ) :
    parseLoop S mem turns ptr left l = carryOut S mem (scan turns off ptr left) l := by
  induction turns generalizing off ptr left l with
  | zero => rfl
  | succ turns ih =>
      unfold parseLoop scan
      by_cases hleft : left = 0
      · rw [if_pos hleft, if_pos hleft]
        rfl
      · rw [if_neg hleft, if_neg hleft]
        -- Each outcome of the two loads is a turn of its own kind.
        rcases load32 ptr with _ | cmd
        · rfl
        · rw [Option.bind_some]
          simp only
          rcases fetch cmd (ptr.drop 4) (left - 4) with _ | _ | ⟨action, size⟩
          · rfl
          · rfl
          · simp only [Option.bind_some, carryOut]
            congr 1
            funext res
            rw [ih (off + (4 + size))]

/-- Every turn takes a command word, so there are no more turns than bytes. -/
theorem scan_turns {turns turns' off left : Nat} {ptr : List UInt8} (h : left ≤ turns)
    (h' : left ≤ turns') : scan turns off ptr left = scan turns' off ptr left := by
  induction turns generalizing turns' off left ptr with
  | zero =>
      rw [Nat.le_zero.mp h]
      cases turns' with
      | zero => rfl
      | succ turns' => rfl
  | succ turns ih =>
      cases turns' with
      | zero =>
          rw [Nat.le_zero.mp h']
          rfl
      | succ turns' =>
          unfold scan
          by_cases hleft : left = 0
          · rw [if_pos hleft, if_pos hleft]
          · rw [if_neg hleft, if_neg hleft]
            rcases load32 ptr with _ | cmd
            · rfl
            · simp only
              rcases fetch cmd (ptr.drop 4) (left - 4) with _ | _ | ⟨action, size⟩
              · rfl
              · rfl
              · simp only
                have hrest : left - (4 + size) ≤ turns := by omega
                have hrest' : left - (4 + size) ≤ turns' := by omega
                rw [ih hrest hrest']

theorem parseLoop_turns (S : Services σ) (mem : Mapping) {turns left : Nat} (ptr : List UInt8)
    (l : Looper σ) (h : left ≤ turns) :
    parseLoop S mem turns ptr left l = parseLoop S mem left ptr left l := by
  rw [parseLoop_scan S mem turns 0, parseLoop_scan S mem left 0, scan_turns h (Nat.le_refl left)]

theorem load32_footprint (ptr : List UInt8) : Footprint load32 ptr [4] := by
  constructor
  · intro k hk
    refine load32_congr _ _ ?_
    rw [List.take_take, Nat.min_eq_left (hk 4 (List.mem_singleton_self 4))]
  · intro w hw n hn
    rw [List.mem_singleton.mp hn]
    exact ((load32_eq_some_iff ptr w).mp hw).1

theorem loadWords_footprint (n : Nat) (ptr : List UInt8) :
    Footprint (loadWords n) ptr [4 * n] := by
  constructor
  · intro k hk
    have hle := hk _ (List.mem_singleton_self _)
    clear hk
    induction n generalizing k ptr with
    | zero => rfl
    | succ n ih =>
        have hword : load32 (ptr.take k) = load32 ptr := by
          refine (load32_footprint ptr).enough k fun m hm => ?_
          rw [List.mem_singleton.mp hm]
          omega
        rw [loadWords, loadWords, hword, List.drop_take, ih (ptr.drop 4) (k - 4) (by omega)]
  · intro ws hws m hm
    rw [List.mem_singleton.mp hm]
    clear hm
    induction n generalizing ptr ws with
    | zero => exact Nat.zero_le _
    | succ n ih =>
        simp only [loadWords, Option.bind_eq_some_iff, Option.map_eq_some_iff] at hws
        rcases hws with ⟨w, hw, ws', hws', _⟩
        have hlen := ((load32_eq_some_iff ptr w).mp hw).1
        have hrest := ih (ptr.drop 4) ws' hws'
        rw [List.length_drop] at hrest
        omega

theorem txn_load_footprint (ptr : List UInt8) : Footprint Txn.load ptr [Txn.wireSize] := by
  have hwords := loadWords_footprint 10 ptr
  constructor
  · intro k hk
    rw [Txn.load, Txn.load, hwords.enough k hk]
  · intro txn htxn
    unfold Txn.load at htxn
    rcases hload : loadWords 10 ptr with _ | ws
    · rw [hload] at htxn
      cases htxn
    · exact hwords.made ws hload

/-- All that is read of a payload. -/
theorem fetch_footprint (cmd : UInt32) (left : Nat) (ptr : List UInt8) :
    Footprint (fun ptr => fetch cmd ptr left) ptr
      ((Turn.payloadReads 0 left (switchCase cmd)).map fun r => r.1 + r.2) := by
  unfold fetch
  cases switchCase cmd with
  | skip _ | spawnLooper | failed | default => exact footprint_const _ ptr
  | transaction | reply =>
      simp only [Turn.payloadReads]
      by_cases hroom : left < Txn.wireSize
      · simp only [if_pos hroom]
        exact footprint_const _ ptr
      · simp only [if_neg hroom, List.map_cons, List.map_nil, Nat.zero_add]
        exact footprint_map (txn_load_footprint ptr) _
  | deadBinder => exact footprint_map (load32_footprint ptr) _

/-- How far some turns look from a place on. -/
def extents (off : Nat) (turns : List Turn) : List Nat :=
  turns.flatMap fun t => t.reads.map fun r => r.1 + r.2 - off

theorem payloadReads_shift (off left : Nat) (c : Case) :
    Turn.payloadReads off left c
      = (Turn.payloadReads 0 left c).map fun r => (off + r.1, r.2) := by
  unfold Turn.payloadReads
  cases c with
  | transaction | reply =>
      simp only
      split <;> rfl
  | skip _ | spawnLooper | deadBinder | failed | default => rfl

theorem payloadReads_pos {off left : Nat} {c : Case} {r : Nat × Nat}
    (h : r ∈ Turn.payloadReads off left c) : off ≤ r.1 ∧ 0 < r.2 := by
  unfold Turn.payloadReads at h
  cases c with
  | transaction | reply =>
      simp only at h
      split at h
      · exact absurd h List.not_mem_nil
      · rw [List.mem_singleton.mp h]
        exact ⟨Nat.le_refl off, Nat.succ_pos _⟩
  | deadBinder =>
      rw [List.mem_singleton.mp h]
      exact ⟨Nat.le_refl off, Nat.succ_pos _⟩
  | skip _ | spawnLooper | failed | default => exact absurd h List.not_mem_nil

/-- Nothing is read before the place at which the turns begin. -/
theorem scan_reads_pos {turns off left : Nat} {ptr : List UInt8} :
    ∀ t ∈ scan turns off ptr left, ∀ r ∈ t.reads, off ≤ r.1 ∧ 0 < r.2 := by
  induction turns generalizing off left ptr with
  | zero => exact fun t ht => absurd ht List.not_mem_nil
  | succ turns ih =>
      intro t ht r hr
      unfold scan at ht
      split at ht
      · exact absurd ht List.not_mem_nil
      rcases hload : load32 ptr with _ | cmd
      · rw [hload] at ht
        rw [List.mem_singleton.mp ht] at hr
        rw [List.mem_singleton.mp hr]
        exact ⟨Nat.le_refl off, Nat.succ_pos _⟩
      rw [hload] at ht
      rcases List.mem_cons.mp ht with rfl | ht
      · -- The command word, or something behind it.
        rcases List.mem_cons.mp hr with rfl | hr
        · exact ⟨Nat.le_refl off, Nat.succ_pos 3⟩
        · have := payloadReads_pos hr
          omega
      · rcases hfetch : fetch cmd (ptr.drop 4) (left - 4) with _ | _ | ⟨action, size⟩
        · rw [hfetch] at ht
          exact absurd ht List.not_mem_nil
        · rw [hfetch] at ht
          exact absurd ht List.not_mem_nil
        · rw [hfetch] at ht
          have := ih t ht r hr
          omega

theorem extents_cons (off : Nat) (t : Turn) (turns : List Turn) :
    extents off (t :: turns) = (t.reads.map fun r => r.1 + r.2 - off) ++ extents off turns :=
  List.flatMap_cons

/-- Turns that begin further on look as much further. -/
theorem extents_shift {off n : Nat} {turns : List Turn}
    (h : ∀ t ∈ turns, ∀ r ∈ t.reads, off + n ≤ r.1) :
    extents off turns = (extents (off + n) turns).map (n + ·) := by
  unfold extents
  rw [List.map_flatMap, List.flatMap_def, List.flatMap_def]
  congr 1
  refine List.map_congr_left fun t ht => ?_
  rw [List.map_map]
  refine List.map_congr_left fun r hr => ?_
  have := h t ht r hr
  simp only [Function.comp_apply]
  omega

/-- A turn at a command word looks at the word, and from there at the payload. -/
theorem command_extents (off left : Nat) (cmd : UInt32)
    (fetched : Option (Option (Action × Nat))) :
    ((Turn.command off left cmd fetched).reads.map fun r => r.1 + r.2 - off)
      = 4 :: ((Turn.payloadReads 0 (left - 4) (switchCase cmd)).map fun r => r.1 + r.2).map
          (4 + ·) := by
  rw [Turn.reads, payloadReads_shift, List.map_cons, List.map_map, List.map_map,
    Nat.add_sub_cancel_left]
  congr 1
  refine List.map_congr_left fun r _ => ?_
  simp only [Function.comp_apply]
  omega

/-- The word, the payload, and what the next turns look at from behind both. -/
theorem scan_extents (turns off : Nat) {left : Nat} (ptr : List UInt8) (hleft : left ≠ 0) :
    extents off (scan (turns + 1) off ptr left) =
      [4] ++ (load32 ptr).elim [] fun cmd =>
        ((Turn.payloadReads 0 (left - 4) (switchCase cmd)).map fun r => r.1 + r.2).map (4 + ·)
          ++ (fetch cmd (ptr.drop 4) (left - 4)).elim [] fun
            | none => []
            | some (_, size) => (extents (off + (4 + size))
              (scan turns (off + (4 + size)) (ptr.drop (4 + size)) (left - (4 + size)))).map
                (4 + size + ·) := by
  rw [scan, if_neg hleft]
  rcases load32 ptr with _ | cmd
  · exact congrArg (fun n => [n]) (Nat.add_sub_cancel_left off 4)
  · simp only [extents_cons, command_extents, Option.elim_some, List.cons_append, List.nil_append]
    rcases fetch cmd (ptr.drop 4) (left - 4) with _ | _ | ⟨action, size⟩
    · rfl
    · rfl
    · simp only [Option.elim_some]
      rw [extents_shift fun t ht r hr => (scan_reads_pos t ht r hr).1]

/-- All that the parser reads. The turns behind a command whose handler does not
    return are listed, too. -/
theorem parseLoop_footprint (S : Services σ) (mem : Mapping) (turns off left : Nat)
    (ptr : List UInt8) (l : Looper σ) :
    Footprint (fun ptr => parseLoop S mem turns ptr left l) ptr
      (extents off (scan turns off ptr left)) := by
  induction turns generalizing off left ptr l with
  | zero => exact footprint_const _ ptr
  | succ turns ih =>
      by_cases hleft : left = 0
      · simp only [parseLoop, scan, if_pos hleft]
        exact footprint_const _ ptr
      -- The word is read first, then the payload, and then what the rest reads.
      rw [scan_extents turns off ptr hleft]
      simp only [parseLoop, if_neg hleft]
      refine footprint_bind (load32_footprint ptr) fun cmd _ => ?_
      refine footprint_bind (footprint_drop 4 (fetch_footprint cmd (left - 4) (ptr.drop 4)) ?_)
        fun fetched _ => ?_
      · intro m hm
        rcases List.mem_map.mp hm with ⟨r, hr, rfl⟩
        exact Nat.add_pos_right _ (payloadReads_pos hr).2
      rcases fetched with _ | ⟨action, size⟩
      · exact footprint_const _ ptr
      rcases hperform : perform S mem l action with _ | ⟨evs, l'⟩
      · -- A handler that faults ends the loop, whatever would have been read.
        simp only [hperform, Option.bind_none]
        exact footprint_none ptr _
      · simp only [hperform, Option.bind_some]
        refine footprint_map (footprint_drop (4 + size) (ih _ _ _ l') fun m hm => ?_) _
        rcases List.mem_flatMap.mp hm with ⟨t, ht, hr⟩
        rcases List.mem_map.mp hr with ⟨r, hread, rfl⟩
        have := scan_reads_pos t ht r hread
        omega

/-- The parser stops at a command it does not know, and at a transaction or a
    reply there is no room for. -/
def Stops (c : Case) (left : Nat) : Prop :=
  payloadSize c = none ∨ ((c = .transaction ∨ c = .reply) ∧ left < Txn.wireSize)

/-- At such a command nothing of the payload is read. -/
theorem fetch_stops {cmd : UInt32} {left : Nat} (ptr : List UInt8) (h : Stops (switchCase cmd) left) :
    fetch cmd ptr left = some none ∧ ∀ off, Turn.payloadReads off left (switchCase cmd) = [] := by
  unfold fetch
  rcases h with hnone | ⟨htxn | hreply, hshort⟩
  · cases hcase : switchCase cmd with
    | default => exact ⟨rfl, fun _ => rfl⟩
    | skip _ | spawnLooper | transaction | reply | deadBinder | failed =>
        rw [hcase] at hnone
        cases hnone
  · rw [htxn]
    simp only [if_pos hshort]
    exact ⟨trivial, fun _ => by rw [Turn.payloadReads, if_pos hshort]⟩
  · rw [hreply]
    simp only [if_pos hshort]
    exact ⟨trivial, fun _ => by rw [Turn.payloadReads, if_pos hshort]⟩

theorem loadWords_isSome (n : Nat) {bs : List UInt8} (h : 4 * n ≤ bs.length) :
    ∃ ws, loadWords n bs = some ws ∧ ws.length = n := by
  induction n generalizing bs with
  | zero => exact ⟨[], rfl, rfl⟩
  | succ n ih =>
      rcases load32_isSome (show 4 ≤ bs.length by omega) with ⟨w, hw⟩
      have hrest : 4 * n ≤ (bs.drop 4).length := by
        rw [List.length_drop]
        omega
      rcases ih hrest with ⟨ws, hws, hlen⟩
      exact ⟨w :: ws, by rw [loadWords, hw, Option.bind_some, hws, Option.map_some],
        by rw [List.length_cons, hlen]⟩

theorem txn_load_isSome {ptr : List UInt8} (h : Txn.wireSize ≤ ptr.length) :
    ∃ txn, Txn.load ptr = some txn := by
  rcases loadWords_isSome 10 h with ⟨ws, hws, hlen⟩
  -- Ten words are the ten fields.
  rcases ws with _ | ⟨a, _ | ⟨b, _ | ⟨c, _ | ⟨d, _ | ⟨e, _ | ⟨f, _ | ⟨g, _ | ⟨i, _ | ⟨j, _ | ⟨k, _ |
    ⟨more, rest⟩⟩⟩⟩⟩⟩⟩⟩⟩⟩⟩
  all_goals simp only [List.length_cons, List.length_nil] at hlen
  any_goals omega
  exact ⟨⟨a, b, c, d, e, f, g, i, j, k⟩, by rw [Txn.load, hws]⟩

/-- A command with room for its payload is carried out, and its payload read. -/
theorem fetch_size {cmd : UInt32} {left size : Nat} {ptr : List UInt8}
    (hsize : payloadSize (switchCase cmd) = some size) (hle : size ≤ left)
    (hptr : left ≤ ptr.length) :
    (∃ action, fetch cmd ptr left = some (some (action, size))) ∧
      ∀ off, ∀ r ∈ Turn.payloadReads off left (switchCase cmd), r.1 + r.2 ≤ off + left := by
  unfold fetch
  cases hcase : switchCase cmd with
  | skip _ | spawnLooper | failed =>
      rw [hcase] at hsize
      cases hsize
      exact ⟨⟨_, rfl⟩, fun off r hr => absurd hr List.not_mem_nil⟩
  | default =>
      rw [hcase] at hsize
      cases hsize
  | transaction | reply =>
      rw [hcase] at hsize
      cases hsize
      rcases txn_load_isSome (Nat.le_trans hle hptr) with ⟨txn, htxn⟩
      have hroom : ¬ left < Txn.wireSize := Nat.not_lt.mpr hle
      simp only [if_neg hroom, htxn, Option.map_some]
      refine ⟨⟨_, rfl⟩, fun off r hr => ?_⟩
      rw [Turn.payloadReads, if_neg hroom] at hr
      rw [List.mem_singleton.mp hr]
      exact Nat.add_le_add_left hle off
  | deadBinder =>
      rw [hcase] at hsize
      cases hsize
      rcases load32_isSome (Nat.le_trans hle hptr) with ⟨cookie, hcookie⟩
      simp only [hcookie, Option.map_some]
      refine ⟨⟨_, rfl⟩, fun off r hr => ?_⟩
      rw [Turn.payloadReads] at hr
      rw [List.mem_singleton.mp hr]
      exact Nat.add_le_add_left hle off

/-- Any other command that is cut is stepped over, or read past the end. -/
theorem fetch_cut {cmd : UInt32} {left size : Nat} (ptr : List UInt8)
    (hsize : payloadSize (switchCase cmd) = some size) (hlt : left < size)
    (hstops : ¬ Stops (switchCase cmd) left) :
    (∃ action, fetch cmd ptr left = some (some (action, size))) ∨
      ∀ off, ∃ r ∈ Turn.payloadReads off left (switchCase cmd), off + left < r.1 + r.2 := by
  unfold fetch
  cases hcase : switchCase cmd with
  | skip _ | spawnLooper | failed =>
      rw [hcase] at hsize
      cases hsize
      exact Or.inl ⟨_, rfl⟩
  | default =>
      rw [hcase] at hsize
      cases hsize
  | transaction =>
      rw [hcase] at hsize hstops
      cases hsize
      exact absurd (Or.inr ⟨Or.inl rfl, hlt⟩) hstops
  | reply =>
      rw [hcase] at hsize hstops
      cases hsize
      exact absurd (Or.inr ⟨Or.inr rfl, hlt⟩) hstops
  | deadBinder =>
      rw [hcase] at hsize
      cases hsize
      exact Or.inr fun off => ⟨(off, 4), List.mem_singleton_self _, Nat.add_lt_add_left hlt off⟩

/-- The turns read nothing behind the end, and carry out no command that goes on
    there. -/
def Tidy (size : Nat) (turns : List Turn) : Prop :=
  ∀ t ∈ turns, (∀ r ∈ t.reads, r.1 + r.2 ≤ size) ∧ (t.Cut size → ¬ t.Performed)

theorem tidy_cons {size : Nat} {t : Turn} {turns : List Turn} :
    Tidy size (t :: turns) ↔
      ((∀ r ∈ t.reads, r.1 + r.2 ≤ size) ∧ (t.Cut size → ¬ t.Performed)) ∧ Tidy size turns :=
  List.forall_mem_cons

/-- Whole commands the parser knows, up to the end or to one it stops at. -/
inductive Whole : List UInt8 → Prop
  | done : Whole []
  | stop (cmd : UInt32) (rest : List UInt8) (h : Stops (switchCase cmd) rest.length) :
      Whole (le32 cmd ++ rest)
  | command (cmd : UInt32) (payload rest : List UInt8)
      (hsize : payloadSize (switchCase cmd) = some payload.length) (hrest : Whole rest) :
      Whole (le32 cmd ++ (payload ++ rest))

theorem whole_length {bs : List UInt8} (h : Whole bs) (hne : 0 < bs.length) : 4 ≤ bs.length := by
  cases h with
  | done => exact absurd hne (Nat.lt_irrefl 0)
  | stop cmd rest _ =>
      rw [List.length_append, le32_length]
      omega
  | command cmd payload rest _ _ =>
      rw [List.length_append, le32_length]
      omega

theorem le32_append_inj {w w' : UInt32} {rest rest' : List UInt8}
    (h : le32 w ++ rest = le32 w' ++ rest') : w = w' ∧ rest = rest' := by
  have hload := congrArg load32 h
  rw [load32_le32, load32_le32, Option.some.injEq] at hload
  subst hload
  exact ⟨rfl, List.append_cancel_left h⟩

/-- What is whole behind its first command word. -/
theorem whole_word_iff (cmd : UInt32) (rest : List UInt8) :
    Whole (le32 cmd ++ rest) ↔ Stops (switchCase cmd) rest.length ∨
      ∃ size, payloadSize (switchCase cmd) = some size ∧ size ≤ rest.length ∧
        Whole (rest.drop size) := by
  constructor
  · intro h
    generalize hbs : le32 cmd ++ rest = bs at h
    cases h with
    | done => exact absurd hbs (by simp only [le32, List.cons_append, reduceCtorEq, not_false_eq_true])
    | stop cmd' rest' hstops =>
        rcases le32_append_inj hbs with ⟨rfl, rfl⟩
        exact Or.inl hstops
    | command cmd' payload rest' hsize hrest =>
        rcases le32_append_inj hbs with ⟨rfl, rfl⟩
        refine Or.inr ⟨_, hsize, ?_, ?_⟩
        · rw [List.length_append]
          exact Nat.le_add_right _ _
        · rwa [List.drop_left]
  · rintro (hstops | ⟨size, hsize, hle, hrest⟩)
    · exact .stop cmd rest hstops
    · have hlen : (rest.take size).length = size := by
        rw [List.length_take]
        omega
      have := Whole.command cmd (rest.take size) (rest.drop size) (by rw [hlen]; exact hsize) hrest
      rwa [List.take_append_drop] at this

/-- A command word cut short is read past the end. -/
theorem short_not_tidy {turns off left : Nat} {ptr : List UInt8} (hleft : left ≠ 0)
    (hword : left < 4) : ¬ Tidy (off + left) (scan (turns + 1) off ptr left) := by
  intro htidy
  rw [scan, if_neg hleft] at htidy
  rcases hload : load32 ptr with _ | cmd
  · rw [hload] at htidy
    have := (htidy _ (List.mem_singleton_self _)).1 (off, 4) (List.mem_singleton_self _)
    simp only at this
    omega
  · rw [hload] at htidy
    have := (htidy _ List.mem_cons_self).1 (off, 4) List.mem_cons_self
    simp only at this
    omega

/-- A turn with room for the payload stays inside. -/
theorem turn_inside {off left size : Nat} {cmd : UInt32} {fetched : Option (Option (Action × Nat))}
    (hword : 4 ≤ left) (hsize : payloadSize (switchCase cmd) = some size) (hle : size ≤ left - 4)
    (hreads : ∀ off, ∀ r ∈ Turn.payloadReads off (left - 4) (switchCase cmd),
      r.1 + r.2 ≤ off + (left - 4)) :
    (∀ r ∈ (Turn.command off left cmd fetched).reads, r.1 + r.2 ≤ off + left) ∧
      ((Turn.command off left cmd fetched).Cut (off + left) →
        ¬ (Turn.command off left cmd fetched).Performed) := by
  refine ⟨fun r hr => ?_, ?_⟩
  · rcases List.mem_cons.mp hr with rfl | hr
    · simp only
      omega
    · have := hreads (off + 4) r hr
      omega
  · rintro ⟨n, hn, hcut⟩
    rw [hsize, Option.some.injEq] at hn
    omega

/-- A turn at a command that is cut, and at which the parser does not stop, is
    not tidy. -/
theorem cut_not_tidy {off left size : Nat} {cmd : UInt32} {ptr : List UInt8} {turns : List Turn}
    (hword : 4 ≤ left) (hsize : payloadSize (switchCase cmd) = some size) (hlt : left - 4 < size)
    (hstops : ¬ Stops (switchCase cmd) (left - 4)) :
    ¬ Tidy (off + left) (.command off left cmd (fetch cmd ptr (left - 4)) :: turns) := by
  intro htidy
  have hturn := (tidy_cons.mp htidy).1
  rcases fetch_cut ptr hsize hlt hstops with ⟨action, hfetch⟩ | hreads
  · rw [hfetch] at hturn
    exact hturn.2 ⟨size, hsize, by omega⟩ trivial
  · rcases hreads (off + 4) with ⟨r, hr, hout⟩
    have := hturn.1 r (List.mem_cons_of_mem _ hr)
    omega

/-- Where the parser stops it has read the command word and nothing else. -/
theorem stop_tidy {off left : Nat} {cmd : UInt32} (ptr : List UInt8) (hword : 4 ≤ left)
    (hstops : Stops (switchCase cmd) (left - 4)) :
    fetch cmd ptr (left - 4) = some none ∧
      Tidy (off + left) [.command off left cmd (some none)] := by
  rcases fetch_stops ptr hstops with ⟨hfetch, hreads⟩
  refine ⟨hfetch, tidy_cons.mpr ⟨⟨fun r hr => ?_, fun _ => id⟩, ?_⟩⟩
  · rw [Turn.reads, hreads, List.mem_singleton] at hr
    rw [hr]
    simp only
    omega
  · exact fun t ht => absurd ht List.not_mem_nil

/-- The bytes are the command word and what is left behind it. -/
theorem take_word {left : Nat} {cmd : UInt32} {ptr : List UInt8} (hword : 4 ≤ left)
    (hload : load32 ptr = some cmd) :
    ptr.take left = le32 cmd ++ (ptr.drop 4).take (left - 4) := by
  conv_lhs => rw [← List.take_append_drop 4 ptr, ((load32_eq_some_iff ptr cmd).mp hload).2]
  rw [List.take_append, le32_length, List.take_of_length_le (by rw [le32_length]; exact hword)]

/-- The turns over some bytes are tidy exactly if the bytes are whole. -/
theorem scan_tidy_iff {turns off left : Nat} {ptr : List UInt8} (hturns : left ≤ turns)
    (hptr : left ≤ ptr.length) :
    Tidy (off + left) (scan turns off ptr left) ↔ Whole (ptr.take left) := by
  -- The induction is on the turns; each of them leaves a shorter rest of the same bytes.
  induction turns generalizing off left ptr with
  | zero =>
      rw [Nat.le_zero.mp hturns]
      exact iff_of_true (fun t ht => absurd ht List.not_mem_nil) .done
  | succ turns ih =>
      by_cases hleft : left = 0
      · rw [scan, if_pos hleft, hleft]
        exact iff_of_true (fun t ht => absurd ht List.not_mem_nil) .done
      by_cases hword : left < 4
      · refine iff_of_false (short_not_tidy hleft hword) (fun hwhole => ?_)
        have hlen := whole_length hwhole
        rw [List.length_take] at hlen
        omega
      rcases load32_isSome (show 4 ≤ ptr.length by omega) with ⟨cmd, hload⟩
      have hroom : left - 4 ≤ (ptr.drop 4).length := by
        rw [List.length_drop]
        omega
      have hrest : ((ptr.drop 4).take (left - 4)).length = left - 4 := by
        rw [List.length_take]
        omega
      rw [take_word (by omega) hload, whole_word_iff, hrest, scan, if_neg hleft, hload]
      simp only
      by_cases hstops : Stops (switchCase cmd) (left - 4)
      · rcases stop_tidy (ptr.drop 4) (Nat.le_of_not_lt hword) hstops with ⟨hfetch, htidy⟩
        rw [hfetch]
        exact iff_of_true htidy (Or.inl hstops)
      rcases hsize : payloadSize (switchCase cmd) with _ | size
      · exact absurd (Or.inl hsize) hstops
      by_cases hle : size ≤ left - 4
      · -- The payload is there, so it depends on the rest.
        rcases fetch_size hsize hle hroom with ⟨⟨action, hfetch⟩, hreads⟩
        have hend : off + left = off + (4 + size) + (left - (4 + size)) := by omega
        have hdrop : ((ptr.drop 4).take (left - 4)).drop size
            = (ptr.drop (4 + size)).take (left - (4 + size)) := by
          rw [List.drop_take, List.drop_drop, Nat.sub_sub]
        rw [hfetch, tidy_cons, and_iff_right (turn_inside (by omega) hsize hle hreads)]
        simp only
        rw [hend, ih (by omega) (by rw [List.length_drop]; omega), ← hdrop]
        constructor
        · exact fun hwhole => Or.inr ⟨size, rfl, hle, hwhole⟩
        · rintro (h | ⟨n, hn, _, hwhole⟩)
          · exact absurd h hstops
          · rw [Option.some.injEq] at hn
            rwa [hn]
      · refine iff_of_false (cut_not_tidy (by omega) hsize (by omega) hstops) ?_
        rintro (h | ⟨n, hn, hfits, _⟩)
        · exact hstops h
        · rw [Option.some.injEq] at hn
          omega

/-- A turn that is not carried out is the last, and then the parser fails. -/
theorem carryOut_stopped {S : Services σ} {mem : Mapping} {turns : List Turn} {l l' : Looper σ}
    {evs : List Event} {t : Turn} (ht : t ∈ turns) (hnot : ¬ t.Performed)
    (h : carryOut S mem turns l = some (evs, l')) : l'.r = -1 := by
  induction turns generalizing l evs with
  | nil => exact absurd ht List.not_mem_nil
  | cons first turns ih =>
      rcases first with _ | ⟨off, left, cmd, _ | _ | ⟨action, size⟩⟩
      · cases h
      · cases h
      · simp only [carryOut, Option.some.injEq, Prod.mk.injEq] at h
        rw [← h.2]
        rfl
      · simp only [carryOut, Option.bind_eq_some_iff, Option.map_eq_some_iff, Prod.mk.injEq,
          Prod.exists] at h
        rcases h with ⟨_, l₁, _, evs₂, l₂, hrest, _, rfl⟩
        rcases List.mem_cons.mp ht with rfl | ht
        · exact absurd trivial hnot
        · exact ih ht hrest

-- The sizes the parser assumes are those the driver writes.
theorem payloadSize_word (c : Return) : payloadSize (switchCase c.word)
    = if c.action.isSome then some c.payload.length else none := by
  rw [switchCase_word]
  cases c <;> rfl

/-- A read of commands is whole, known or not. -/
theorem whole_encodeAll (cs : List Return) : Whole (encodeAll cs) := by
  induction cs with
  | nil => exact .done
  | cons c cs ih =>
      rw [encodeAll_cons, Return.encode, List.append_assoc]
      have hsize := payloadSize_word c
      by_cases hknown : c.action.isSome = true
      · rw [if_pos hknown] at hsize
        exact .command _ _ _ hsize ih
      · rw [if_neg hknown] at hsize
        exact .stop _ _ (Or.inl hsize)

/-- The parser is through after as many turns as there are bytes, whatever the
    bytes are. It carries out the turns it scans, and reads what they read and
    nothing besides; and it reads nothing but the bytes given, and takes no
    command that is cut for a whole one, exactly if they are whole commands up to
    where it stops. -/
theorem parse_confined_iff (S : Services σ) (mem : Mapping) (data : Option Parcel)
    (ptr : List UInt8) (size : Nat) (s : σ) (hptr : size ≤ ptr.length) :
    (∀ turns, size ≤ turns → parseLoop S mem turns ptr size (Looper.start data s)
        = binderParse S mem data ptr size s) ∧
      binderParse S mem data ptr size s
        = carryOut S mem (scan size 0 ptr size) (Looper.start data s) ∧
      Footprint (fun ptr => binderParse S mem data ptr size s) ptr
        (extents 0 (scan size 0 ptr size)) ∧
      ((∀ t ∈ scan size 0 ptr size, (∀ r ∈ t.reads, r.1 + r.2 ≤ size) ∧
          (t.Cut size → ¬ t.Performed ∧
            ∀ evs l, binderParse S mem data ptr size s = some (evs, l) → l.r = -1)) ↔
        Whole (ptr.take size)) := by
  have hscan := parseLoop_scan S mem size 0 size ptr (Looper.start data s)
  refine ⟨fun turns h => parseLoop_turns S mem ptr _ h, hscan,
    parseLoop_footprint S mem size 0 size ptr _, ?_⟩
  have hiff : Tidy (0 + size) (scan size 0 ptr size) ↔ _ := scan_tidy_iff (Nat.le_refl size) hptr
  rw [Nat.zero_add] at hiff
  rw [← hiff]
  refine forall₂_congr fun t ht => and_congr_right fun _ => forall_congr' fun hcut => ?_
  refine ⟨And.left, fun hnot => ⟨hnot, fun evs l h => ?_⟩⟩
  rw [binderParse, hscan] at h
  exact carryOut_stopped ht hnot h

/-- Commands of each size there is. -/
def fourCommands : List Return :=
  [.noop, .transaction ⟨0, 0, 1, 0, 0, 0, 0, 0, 0, 0⟩, .increfs ⟨1, 2⟩, .deadBinder 5]

/-- They are read in six pieces, none of them behind the end. -/
theorem parse_confined_commands :
    Footprint (fun ptr => binderParse quietServices ⟨fun _ => [], fun _ => []⟩ none ptr 68 ())
        (encodeAll fourCommands) [4, 8, 48, 52, 64, 68] ∧
      ∀ t ∈ scan 68 0 (encodeAll fourCommands) 68, ∀ r ∈ t.reads, r.1 + r.2 ≤ 68 := by
  rcases parse_confined_iff quietServices ⟨fun _ => [], fun _ => []⟩ none
    (encodeAll fourCommands) 68 () (by decide) with ⟨_, _, hfoot, hiff⟩
  have hextents : extents 0 (scan 68 0 (encodeAll fourCommands) 68) = [4, 8, 48, 52, 64, 68] := by
    decide +kernel
  rw [hextents] at hfoot
  exact ⟨hfoot, fun t ht => (hiff.mpr (whole_encodeAll fourCommands) t ht).1⟩

/-- A death without its cookie. -/
theorem cookie_outside : ¬ ∀ (ptr : List UInt8) (size : Nat), size ≤ ptr.length →
    ∀ t ∈ scan size 0 ptr size, ∀ r ∈ t.reads, r.1 + r.2 ≤ size := by
  intro h
  have hread := h (le32 brDeadBinder) 4 (by decide) (.command 0 4 brDeadBinder none)
    (List.mem_singleton_self _) (4, 4) (List.mem_cons_of_mem _ (List.mem_singleton_self _))
  exact absurd hread (by decide)

end Binder

end ZeusOS
