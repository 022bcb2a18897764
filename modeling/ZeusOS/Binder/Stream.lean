import ZeusOS.Binder.Binder

/-!
# The Stream as Commands

`binderParse` works on bytes. What it does to a read that consists of whole
commands is said more directly by `execute`, which goes through the commands
themselves; `binderParse_encode` is the refinement between the two, and from
there on nothing needs to look at the bytes again.

A stream may contain commands the parser has no case for. It gives up at the
first of them, so only the commands before it are ever carried out: `known` is
that part.

## Main definitions

* `Return.action`: What a command calls for, if the parser knows it.
* `execute`: Carrying out a list of commands.
* `known`: The commands the parser gets to.
* `encodeAll`: A read's worth of commands.
* `Read`: A read that holds such a list.
* `Performed`: What an action can have done.

## Theorems

* `fetch_payload`: The payload of each command is read back.
* `binderParse_encode`: Parsing an encoded list is carrying it out.
* `perform_cases`: An action does one of these things.
* `execute_known`: Only the known part is carried out.
* `execute_cons`: Carrying out a list, command by command.
* `parseLoop_cases`, `parseLoop_invariant`: A turn of the loop, and a run of it.
-/

namespace ZeusOS

namespace Binder

open Foundation.Words

/-- What a command calls for, if the parser has a case for it. -/
def Return.action : Return → Option Action
  | transaction txn => some (.transaction txn)
  | reply txn => some (.reply txn)
  | deadReply => some .failed
  | failedReply => some .failed
  | transactionComplete => some .skip
  | noop => some .skip
  | increfs _ => some .skip
  | acquire _ => some .skip
  | release _ => some .skip
  | decrefs _ => some .skip
  | spawnLooper => some .spawnLooper
  | deadBinder cookie => some (.deadBinder cookie)
  | _ => none

/-- The bytes of a list of commands. -/
def encodeAll (cs : List Return) : List UInt8 := cs.flatMap Return.encode

/-- The commands before the first one the parser does not know. -/
def known (cs : List Return) : List Return := cs.takeWhile fun c => c.action.isSome

/-- The first command the parser does not know, and everything after it. -/
def unreached (cs : List Return) : List Return := cs.dropWhile fun c => c.action.isSome

theorem known_append_unreached (cs : List Return) : known cs ++ unreached cs = cs :=
  List.takeWhile_append_dropWhile

variable {σ : Type}

/-- Carry out a list of commands, giving up at one that is not known. -/
def execute (S : Services σ) (mem : Mapping) :
    List Return → Looper σ → Option (List Event × Looper σ)
  | [], l => some ([], l)
  | c :: cs, l =>
    match c.action with
    | none => some ([], l.fail)
    | some action => (perform S mem l action).bind fun (evs, l) =>
      (execute S mem cs l).map fun (evs', l) => (evs ++ evs', l)

/-- A read that holds whole commands. What else is in the read buffer is left
    over from earlier reads. -/
structure Read where
  mem : Mapping
  commands : List Return
  stale : List UInt8

/-- The read as an `ioctl` hands it over, the bytes to be written consumed up
    to `writeConsumed`. -/
def Read.answer (writeConsumed : Nat) (r : Read) : Answer :=
  .read writeConsumed r.mem (encodeAll r.commands ++ r.stale) (encodeAll r.commands).length

theorem fetch_payload (c : Return) (rest : List UInt8) (left : Nat)
    (hleft : c.payload.length ≤ left) :
    fetch c.word (c.payload ++ rest) left
      = some (c.action.map fun action => (action, c.payload.length)) := by
  have htxn : ∀ txn : Txn, txn.encode.length ≤ left → ¬ left < Txn.wireSize := by
    intro txn h
    rw [Txn.encode_length] at h
    omega
  unfold fetch
  -- The word decides the case, so nothing depends on the numbers of the protocol.
  rw [switchCase_word]
  -- Only three commands have a payload that the parser looks at.
  cases c with
  | transaction txn =>
      simp only [Return.case, Return.payload, Txn.load_encode, if_neg (htxn txn hleft),
        Option.map_some, Return.action, Txn.encode_length]
  | reply txn =>
      simp only [Return.case, Return.payload, Txn.load_encode, if_neg (htxn txn hleft),
        Option.map_some, Return.action, Txn.encode_length]
  | deadBinder cookie =>
      simp only [Return.case, Return.payload, load32_le32, Option.map_some, Return.action,
        le32_length]
  | _ => rfl

theorem encode_length (c : Return) : c.encode.length = 4 + c.payload.length := by
  rw [Return.encode, List.length_append, le32_length]

theorem encodeAll_cons (c : Return) (cs : List Return) :
    encodeAll (c :: cs) = c.encode ++ encodeAll cs := List.flatMap_cons

/-- The parse loop over whole commands carries them out, given a turn for each
    byte. -/
theorem parseLoop_encode (S : Services σ) (mem : Mapping) (cs : List Return)
    (stale : List UInt8) (turns : Nat) (l : Looper σ) (hturns : (encodeAll cs).length ≤ turns) :
    parseLoop S mem turns (encodeAll cs ++ stale) (encodeAll cs).length l
      = execute S mem cs l := by
  induction cs generalizing turns l with
  | nil =>
      cases turns with
      | zero => rfl
      | succ turns => rfl
  | cons c cs ih =>
      have hlen : (encodeAll (c :: cs)).length = 4 + c.payload.length + (encodeAll cs).length := by
        rw [encodeAll_cons, List.length_append, encode_length]
      -- There are bytes left, so there is a turn left.
      cases turns with
      | zero => omega
      | succ turns =>
          have hbytes : encodeAll (c :: cs) ++ stale
              = le32 c.word ++ (c.payload ++ (encodeAll cs ++ stale)) := by
            simp only [encodeAll_cons, Return.encode, List.append_assoc]
          have hdrop : (le32 c.word ++ (c.payload ++ (encodeAll cs ++ stale))).drop 4
              = c.payload ++ (encodeAll cs ++ stale) := rfl
          have hskip : (le32 c.word ++ (c.payload ++ (encodeAll cs ++ stale))).drop
              (4 + c.payload.length) = encodeAll cs ++ stale := by
            rw [← List.drop_drop, hdrop, List.drop_left]
          -- What is left is the payload and the commands behind it.
          have hfetch := fetch_payload c (encodeAll cs ++ stale)
            (4 + c.payload.length + (encodeAll cs).length - 4) (by omega)
          unfold parseLoop
          rw [hlen, if_neg (by omega), hbytes, load32_le32, Option.bind_some, hdrop, hfetch,
            Option.bind_some]
          -- The command is known or it is not; in the first case the rest follows by induction.
          cases haction : c.action with
          | none => simp only [Option.map_none, execute, haction]
          | some action =>
              simp only [Option.map_some, execute, haction, hskip]
              have hleft : 4 + c.payload.length + (encodeAll cs).length - (4 + c.payload.length)
                  = (encodeAll cs).length := by omega
              rcases perform S mem l action with _ | ⟨evs, l'⟩
              · rfl
              · simp only [Option.bind_some, hleft, ih turns l' (by omega)]

/-- Parsing an encoded list of commands is carrying it out. -/
theorem binderParse_encode (S : Services σ) (mem : Mapping) (data : Option Parcel)
    (cs : List Return) (stale : List UInt8) (s : σ) :
    binderParse S mem data (encodeAll cs ++ stale) (encodeAll cs).length s
      = execute S mem cs (Looper.start data s) :=
  parseLoop_encode S mem cs stale _ _ (Nat.le_refl _)

/-- Of an arbitrary list only the known part is carried out. -/
theorem execute_known (S : Services σ) (mem : Mapping) (cs : List Return) (l : Looper σ) :
    execute S mem cs l = (execute S mem (known cs) l).map fun (evs, l) =>
      (evs, if unreached cs = [] then l else l.fail) := by
  induction cs generalizing l with
  | nil => rfl
  | cons c cs ih =>
      cases haction : c.action with
      | none =>
          -- The parser gives up here, so this command is the first one unreached.
          simp only [execute, haction, known, unreached, List.takeWhile_cons, List.dropWhile_cons,
            Option.isSome_none, Bool.false_eq_true, if_false, Option.map_some,
            List.cons_ne_nil]
      | some action =>
          have hknown : known (c :: cs) = c :: known cs := by
            simp only [known, List.takeWhile_cons, haction, Option.isSome_some, if_true]
          have hunreached : unreached (c :: cs) = unreached cs := by
            simp only [unreached, List.dropWhile_cons, haction, Option.isSome_some, if_true]
          -- A known command is carried out in both lists alike.
          rw [hknown, hunreached]
          simp only [execute, haction]
          rcases perform S mem l action with _ | ⟨evs, l'⟩
          · rfl
          · simp only [Option.bind_some, ih l', Option.map_map, Function.comp_def]

/-- What an action can have done. -/
inductive Performed (S : Services σ) (mem : Mapping) (l : Looper σ) :
    Action → List Event → Looper σ → Prop
  | skip : Performed S mem l .skip [] l
  | spawnLooper : Performed S mem l .spawnLooper [.spawnLooper] l
  | transaction (txn : Txn) (res : Handled σ)
      (hres : onTransact S txn txn (Parcel.bioInitFromTxn mem txn)
        (Parcel.new (S.newIoData l.state)) l.state = some res) :
      Performed S mem l (.transaction txn) (transactionEvents txn res) { l with state := res.state }
  | taken (txn : Txn) (hbio : l.bio = true) :
      Performed S mem l (.reply txn) [.reply txn true]
        { l with data := some (Parcel.bioInitFromTxn mem txn), bio := false, r := 0 }
  | ignored (txn : Txn) (hbio : l.bio = false) :
      Performed S mem l (.reply txn) [.reply txn false] { l with r := 0 }
  | deadBinder (cookie : UInt32) (writes : List RefCommand) (s : σ)
      (hdeath : S.binderDeath cookie l.state = some (writes, s)) :
      Performed S mem l (.deadBinder cookie) (.binderDeath cookie :: refEvents writes)
        { l with state := s }
  | failed : Performed S mem l .failed [] l.fail

theorem perform_cases {S : Services σ} {mem : Mapping} {l l' : Looper σ} {action : Action}
    {evs : List Event} (h : perform S mem l action = some (evs, l')) :
    Performed S mem l action evs l' := by
  -- One case of the `switch` after the other.
  cases action with
  | skip =>
      simp only [perform, Option.some.injEq, Prod.mk.injEq] at h
      rcases h with ⟨rfl, rfl⟩
      exact .skip
  | spawnLooper =>
      simp only [perform, Option.some.injEq, Prod.mk.injEq] at h
      rcases h with ⟨rfl, rfl⟩
      exact .spawnLooper
  | transaction txn =>
      simp only [perform, Option.map_eq_some_iff, Prod.mk.injEq] at h
      rcases h with ⟨res, hres, rfl, rfl⟩
      exact .transaction txn res hres
  | reply txn =>
      -- A reply is taken by whoever is waiting, and ignored by a looper.
      by_cases hbio : l.bio = true
      · rw [perform, if_pos hbio, Option.some.injEq, Prod.mk.injEq] at h
        rcases h with ⟨rfl, rfl⟩
        exact .taken txn hbio
      · rw [perform, if_neg hbio, Option.some.injEq, Prod.mk.injEq] at h
        rcases h with ⟨rfl, rfl⟩
        exact .ignored txn (Bool.not_eq_true _ ▸ hbio)
  | deadBinder cookie =>
      simp only [perform, Option.map_eq_some_iff, Prod.mk.injEq, Prod.exists] at h
      rcases h with ⟨writes, s, hdeath, rfl, rfl⟩
      exact .deadBinder cookie writes s hdeath
  | failed =>
      simp only [perform, Option.some.injEq, Prod.mk.injEq] at h
      rcases h with ⟨rfl, rfl⟩
      exact .failed

/-- Carrying out a list takes a known command to its action, and then the
    rest. -/
theorem execute_cons {S : Services σ} {mem : Mapping} {c : Return} {cs : List Return}
    {l l'' : Looper σ} {evs : List Event} {action : Action} (haction : c.action = some action)
    (h : execute S mem (c :: cs) l = some (evs, l'')) :
    ∃ evs₁ evs₂ l', perform S mem l action = some (evs₁, l') ∧
      execute S mem cs l' = some (evs₂, l'') ∧ evs = evs₁ ++ evs₂ := by
  simp only [execute, haction, Option.bind_eq_some_iff, Option.map_eq_some_iff, Prod.exists,
    Prod.mk.injEq] at h
  rcases h with ⟨evs₁, l', hperform, evs₂, l₂, hrest, hevs, hl⟩
  exact ⟨evs₁, evs₂, l', hperform, by rw [hrest, hl], hevs.symm⟩

/-- A turn of the parse loop finds nothing left, a command it gives up at, or one
    it carries out before it goes on behind it. -/
theorem parseLoop_cases {S : Services σ} {mem : Mapping} {turns left : Nat} {ptr : List UInt8}
    {l l'' : Looper σ} {evs : List Event}
    (h : parseLoop S mem (turns + 1) ptr left l = some (evs, l'')) :
    (left = 0 ∧ evs = [] ∧ l'' = l) ∨ (left ≠ 0 ∧ ∃ cmd, load32 ptr = some cmd ∧
      ((fetch cmd (ptr.drop 4) (left - 4) = some none ∧ evs = [] ∧ l'' = l.fail) ∨
        ∃ action size evs₁ evs₂ l', fetch cmd (ptr.drop 4) (left - 4) = some (some (action, size)) ∧
          perform S mem l action = some (evs₁, l') ∧
          parseLoop S mem turns (ptr.drop (4 + size)) (left - (4 + size)) l' = some (evs₂, l'') ∧
          evs = evs₁ ++ evs₂)) := by
  unfold parseLoop at h
  by_cases hleft : left = 0
  · rw [if_pos hleft, Option.some.injEq, Prod.mk.injEq] at h
    exact Or.inl ⟨hleft, h.1.symm, h.2.symm⟩
  · rw [if_neg hleft, Option.bind_eq_some_iff] at h
    rcases h with ⟨cmd, hcmd, h⟩
    rw [Option.bind_eq_some_iff] at h
    rcases h with ⟨_ | ⟨action, size⟩, hfetch, h⟩
    · simp only [Option.some.injEq, Prod.mk.injEq] at h
      exact Or.inr ⟨hleft, cmd, hcmd, Or.inl ⟨hfetch, h.1.symm, h.2.symm⟩⟩
    · simp only [Option.bind_eq_some_iff, Option.map_eq_some_iff, Prod.exists, Prod.mk.injEq] at h
      rcases h with ⟨evs₁, l', hperform, evs₂, l₂, hrest, hevs, hl⟩
      exact Or.inr ⟨hleft, cmd, hcmd, Or.inr ⟨action, size, evs₁, evs₂, l', hfetch, hperform,
        by rw [hrest, hl], hevs.symm⟩⟩

/-- What every action keeps, and giving up keeps, the parse loop keeps. -/
theorem parseLoop_invariant {S : Services σ} {mem : Mapping} (I : List Event → Looper σ → Prop)
    (hfail : ∀ evs l, I evs l → I evs l.fail)
    (hperform : ∀ evs l action evs' l', I evs l → Performed S mem l action evs' l' →
      I (evs ++ evs') l')
    {turns left : Nat} {ptr : List UInt8} {l l' : Looper σ} {before evs : List Event}
    (hI : I before l) (h : parseLoop S mem turns ptr left l = some (evs, l')) :
    I (before ++ evs) l' := by
  induction turns generalizing ptr left l before evs with
  | zero =>
      simp only [parseLoop, Option.some.injEq, Prod.mk.injEq] at h
      rcases h with ⟨rfl, rfl⟩
      rwa [List.append_nil]
  | succ turns ih =>
      rcases parseLoop_cases h with ⟨_, rfl, rfl⟩ | ⟨_, cmd, _, ⟨_, rfl, rfl⟩ |
        ⟨action, size, evs₁, evs₂, l₁, _, hfirst, hrest, rfl⟩⟩
      · rwa [List.append_nil]
      · rw [List.append_nil]
        exact hfail before l hI
      · rw [← List.append_assoc]
        exact ih (hperform before l action evs₁ l₁ hI (perform_cases hfirst)) hrest

end Binder

end ZeusOS
