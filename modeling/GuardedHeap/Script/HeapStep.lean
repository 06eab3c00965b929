/-
  Script/HeapStep.lean --- heap calls as steps of a script.

  WHAT THIS FILE IS FOR.  Reads a heap call from the fields of a step, makes it,
  and binds the pointer it returns.  A step of a script on a heap can also wait
  for a platform call in a hook; `hookCallback` is the code that then runs inside
  it.
-/
import GuardedHeap.Script.RawStep

set_option autoImplicit false

namespace GuardedHeap.Session

/-! ## From fields to a call -/

/-- The names of steps that are heap calls. -/
inductive HeapVerb where
  | alloc
  | free
  | realloc
  | used
  | stats
  | audit
  | top
  | traceOn
  | traceOff
  | tracing
  | holder
  | info
  | installed
  | install
  | galloc
  | gdealloc
  | grealloc
  deriving DecidableEq, Repr

namespace HeapVerb

/-- The verb a name stands for. -/
def ofName? : String → Option HeapVerb
  | "alloc" => some alloc
  | "free" => some free
  | "realloc" => some realloc
  | "used" => some used
  | "stats" => some stats
  | "audit" => some audit
  | "top" => some top
  | "trace_on" => some traceOn
  | "trace_off" => some traceOff
  | "tracing" => some tracing
  | "holder" => some holder
  | "info" => some info
  | "installed" => some installed
  | "install" => some install
  | "galloc" => some galloc
  | "gzeroed" => some galloc
  | "gdealloc" => some gdealloc
  | "grealloc" => some grealloc
  | _ => none

/-- Verbs that make sense before a heap is installed. -/
def worksUninstalled : HeapVerb → Bool
  | installed | install | galloc | gdealloc | grealloc => true
  | _ => false

end HeapVerb

/-- The layout in the fields of a step. -/
def layoutField (v : Value) : Except Fault Layout := do
  let size ← v.requiredWord "size"
  let align ← v.requiredWord "align"
  match Layout.ofSizeAlign? size align with
  | some l => return l
  | none => refuse .badLayout

/-- The slot in front of an aligned payload has to be mapped. -/
def requireSlot (m : Machine) (l : Layout) (address : Nat) : Except Fault Unit := do
  if ¬ l.Plain then
    if address < Layout.slotSize then refuse .outside
    let _ ← offsetOf m (address - Layout.slotSize) Layout.slotSize

/-- Reads a heap call from the fields of a step. -/
def readCall (m : Machine) (names : Names) (verb : HeapVerb) (v : Value) :
    Except Fault Call := do
  if !m.installed && !verb.worksUninstalled then refuse .notInstalled
  match verb with
  | .alloc => return .allocate (← v.requiredWord "size")
  | .free => return .free (← pointerField m names v)
  | .realloc => do
    let address ← pointerField m names v
    return .reallocate address (← v.requiredWord "size")
  | .used => return .usedBytes (v.flagField "details" false)
  | .stats => return .stats
  | .audit => return .audit
  | .top => return .top
  | .traceOn => return .setTracing true
  | .traceOff => return .setTracing false
  | .tracing => return .isTracing
  | .holder => return .lockHolder
  | .info => return .describe
  | .installed => return .isInstalled
  | .install => return .install
  | .galloc => return .allocateLayout (← layoutField v)
  | .gdealloc => do
    let address ← pointerField m names v
    let l ← layoutField v
    requireSlot m l address
    return .freeLayout address l
  | .grealloc => do
    let address ← pointerField m names v
    let l ← layoutField v
    let newSize ← v.requiredWord "new_size"
    requireSlot m l address
    if ¬ l.Plain then
      let _ ← offsetOf m address l.size
    return .reallocateLayout address l newSize

/-! ## Hooks -/

/-- A step of a script on a heap that runs inside a platform call, with nothing
more inside: one beside the heap, or a heap call. -/
def innerStep (names : Names) (verb : String) (v : Value) : HeapM Reply :=
  match rawStep? names verb v, HeapVerb.ofName? verb with
  | some x, _ => x
  | none, some verb => do
    let call ← readCall (← get) names verb v
    call.run Callback.none (siteOf v)
  | none, none => throw (.refused .badInput)

/-- Runs the step of a hook, as the context of the hook, and records how it
ended. -/
def fire (names : Names) (h : Hook) : HeapM Unit := do
  let before := (← get).context.id
  modify fun m =>
    { m with
      context := { m.context with id := h.context.getD before }
      patience := ⟨0, h.yields⟩ }
  let outcome : Except Fault Reply ←
    tryCatch (Except.ok <$> innerStep names h.verb h.arguments) fun f => pure (.error f)
  Machine.record (.nested outcome)
  modify fun m => { m with context := { m.context with id := before } }
  match outcome with
  | .error f => if h.propagate && f.halts then throw f
  | .ok _ => pure ()

/-- The code that runs inside platform calls: it counts down the trap of the
machine and fires the hook once. -/
def hookCallback (names : Names) : Option Hook → Callback
  | none => Callback.none
  | some h => fun on => do
    match (← get).trap with
    | none => pure ()
    | some t =>
      if t.on = on then
        if t.skip = 0 then
          modify fun m => { m with trap := none }
          fire names h
        else modify fun m => { m with trap := some { t with skip := t.skip - 1 } }

/-- The callback of a session. -/
def callback (s : Session) : Callback := hookCallback s.names s.hook

/-- The platform call a name stands for. -/
def platformCall? : String → Option PlatformCall
  | "alloc_frame" => some .allocateFrame
  | "map" => some .mapPage
  | "unmap" => some .unmapPage
  | "release" => some .releaseFrame
  | _ => none

/-- The arguments a hooked step takes from the step that sets the hook. -/
def hookArguments (v : Value) : Value :=
  .record (["size", "ptr", "site"].filterMap fun name => (v.field? name).map fun w => (name, w))

/-- Lets a step wait for a platform call. -/
def hookStep (v : Value) : ScriptM Value := do
  match (v.textField? "on").bind platformCall?, v.textField? "call" with
  | some on, some verb =>
    let hook : Hook :=
      { verb := verb
        arguments := hookArguments v
        context := (v.wordField? "ctx").map contextOfWord
        yields := v.wordField "yields" 3
        propagate := v.flagField "propagate" false }
    let trap : Trap := ⟨on, v.wordField "skip" 0⟩
    modify fun s => { s with hook := some hook, machine := { s.machine with trap := some trap } }
    return .null
  | _, _ => throw (.refused .badInput)

/-! ## The step -/

/-- Binds a pointer to the name a step gives. -/
def bindName (v : Value) (address : Nat) : ScriptM Unit := do
  if let some name := v.textField? "as" then
    modify fun s => { s with names := (name, address) :: s.names }

/-- Shows what an operation on the machine answers. -/
def answering (x : HeapM Reply) : ScriptM Value := return Render.reply (← onMachine x)

/-- Makes a heap call as a step. -/
def heapStep (verb : HeapVerb) (v : Value) : ScriptM Value := do
  let s ← get
  let call ← readCall s.machine s.names verb v
  let reply ← onMachine (call.run s.callback (siteOf v))
  if let .pointer address := reply then bindName v address
  return Render.reply reply

end GuardedHeap.Session
