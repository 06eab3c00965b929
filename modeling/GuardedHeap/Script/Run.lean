/-
  Script/Run.lean --- whole scripts and their answers.

  WHAT THIS FILE IS FOR.  Starts a session from the fields of a script, runs its
  steps one after the other, and shows for each what it answered, what was
  logged, what happened at the platform and the state it left.  A step that
  fails leaves its changes and the script goes on.
-/
import GuardedHeap.Script.PartStep

set_option autoImplicit false

namespace GuardedHeap.Session

/-! ## Steps -/

/-- The step a name stands for, in a session on a subject. -/
def stepOf? (s : Session) (verb : String) (v : Value) : Option (ScriptM Value) :=
  ((rawStep? s.names verb v).map answering).or <|
  (if verb = "hook" then some (hookStep v) else none).or <|
    match s.subject with
    | .heap => (HeapVerb.ofName? verb).map fun h => heapStep h v
    | .allocator => (HeapVerb.ofName? verb).map fun h => heapStep h v
    | .segments => segmentStep? verb v
    | .window => windowStep? verb v
    | .lock => lockStep? verb v

/-- Runs one step. -/
def step (v : Value) : ScriptM Value := do
  let s ← get
  match (v.textField? "do").bind fun verb => stepOf? s verb v with
  | some x => x
  | none => throw (.refused .badInput)

/-- The session with nothing logged and nothing recorded. -/
def fresh (s : Session) : Session :=
  { s with machine := { s.machine with journal := #[], events := #[] } }

/-- A field, left out if it is an empty list. -/
def unlessEmpty (name : String) : List Value → List (String × Value)
  | [] => []
  | items => [(name, .list items)]

/-- Runs one step from a fresh journal and shows its answer. -/
def answerStep (rank : Nat) (showState : Bool) (s : Session) (v : Value) : Value × Session :=
  let (outcome, s) :=
    match step v s.fresh with
    | .ok r s => ([("r", r)], s)
    | .error f s => (Render.faultFields f, s)
  let answer :=
    outcome ++ unlessEmpty "log" (Render.journal rank s.machine.journal) ++
      unlessEmpty "ev" (s.machine.events.toList.map Render.event) ++
      if showState then s.stateFields else []
  (.record answer, s)

/-- Runs steps in order.  The state is shown after each, or after the last one
only. -/
def answerSteps (rank : Nat) (dump : Bool) : Session → List Value → List Value
  | _, [] => []
  | s, v :: rest =>
    let (answer, s) := answerStep rank (dump || rest.isEmpty) s v
    answer :: answerSteps rank dump s rest

/-! ## The start of a session -/

/-- The subject a name stands for. -/
def subjectOfName? : String → Option Subject
  | "heap" => some .heap
  | "global" => some .allocator
  | "list" => some .segments
  | "range" => some .window
  | "lock" => some .lock
  | _ => none

/-- How many levels of the log are shown under a name. -/
def rankOfName? : String → Option Nat
  | "off" => some 0
  | "error" => some Level.error.rank
  | "warn" => some Level.warn.rank
  | "info" => some Level.info.rank
  | "debug" => some Level.debug.rank
  | "trace" => some Level.trace.rank
  | _ => none

/-- Builds the objects a session on a subject starts with. -/
def build : Subject → HeapM Unit
  | .heap => Machine.install
  | .allocator => pure ()
  | .segments => do
    Machine.claimWindow
    Machine.coverWindow
  | .window => Machine.claimWindow
  | .lock => pure ()

/-- The machine a session starts with. -/
def startMachine (subject : Subject) (m : Machine) : Machine :=
  match build subject m with
  | .ok _ m => m
  | .error _ m => m

/-- The context in the fields of a script. -/
def contextFields (v : Value) : Context where
  id := contextOfWord (v.wordField "ctx" 1)
  cpu := v.wordField "cpu" 0
  booted := v.flagField "booted" true
  interrupts := v.flagField "interrupts" true

/-- Runs a script on a subject.  What is wrong with the fields of the script is
found in a fixed order: base and minimum, window, place of the window, level,
steps. -/
def answer (subject : Subject) (v : Value) : Value :=
  let bad : Value := Render.fault (.refused .badInput)
  let base := v.wordField "base" 0x1000000000
  let minPages := v.wordField "min_pages" 1
  let maxPages := v.wordField "max_pages" 4
  if hb : 0 < base then
    if 64 < minPages then bad
    else
      match Window.ofPages base minPages maxPages hb with
      | .error e => .record [("error", .text e.name), ("message", .text e.message)]
      | .ok w =>
        if base < 0x10000000 ∨ 0x100000000000 ≤ base then bad
        else
          match rankOfName? ((v.textField? "log").getD "off"), (v.field "steps").list? with
          | some rank, some steps =>
            let bare := Machine.boot w (min (v.wordField "frames" 64) 4096) (contextFields v)
              (v.flagField "keep_frames" false) 0xaa
            let m := startMachine subject bare
            let s : Session := ⟨subject, m, [], none, 0, none⟩
            .record
              (("results", .list (answerSteps rank (v.flagField "dump" true) s steps)) ::
                unlessEmpty "log" (Render.journal rank m.journal))
          | _, _ => bad
  else bad

end GuardedHeap.Session
