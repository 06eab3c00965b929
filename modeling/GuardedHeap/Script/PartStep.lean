/-
  Script/PartStep.lean --- steps on parts of a heap.

  WHAT THIS FILE IS FOR.  Sessions on a bare segment list, on a bare window and
  on the lock alone.  Their steps reach the operations that heap calls are made
  of, one at a time, so errors come back as they were detected.
-/
import GuardedHeap.Script.HeapStep

set_option autoImplicit false

namespace GuardedHeap.Session

/-! ## A bare segment list -/

/-- An offset with a header that lies in mapped memory. -/
def checkedOffset (off : Nat) : ScriptM Nat := do
  if off % granule ≠ 0 then throw (.refused .badInput)
  let m := (← get).machine
  let off ← offsetOf m (m.arena.window.base + off) headerSize
  return off

/-- The offset in the `off` field of a step. -/
def offsetField (v : Value) : ScriptM Nat := do
  checkedOffset (← v.requiredWord "off")

/-- The pointer of a step. -/
def addressOf (v : Value) : ScriptM Nat := do
  let s ← get
  pointerField s.machine s.names v

/-- Runs an operation on the arena of the session. -/
def onArena {α : Type} (x : ArenaM α) : ScriptM α := onMachine (Machine.onArena x)

/-- Looks at the arena of the session. -/
def inspect {α : Type} (f : Arena → Except Fault α) : ScriptM α := do
  f (← get).machine.arena

/-- The changes an `update` step asks for. -/
def headerChange (v : Value) (h : Header) : Header :=
  { h with
    used := v.flagField "used" h.used
    size := v.wordField "size" h.size
    freedAt :=
      match v.wordField? "freed_at" with
      | some n => some (siteOfNumber n)
      | none => h.freedAt }

/-- What a walk of the arena yields, the failure last. -/
def walkItems (w : Walk) : List Value :=
  w.segments.map (fun s => .text (Render.segment s)) ++
    (w.failure.map Render.fault).toList

/-- The step on a segment list a name stands for. -/
def segmentStep? (verb : String) (v : Value) : Option (ScriptM Value) :=
  match verb with
  | "find" => some do
    let size ← v.requiredWord "size"
    return .ofNat? (← onMachine (Machine.search size))
  | "extend" => some do
    let size ← v.requiredWord "size"
    let s ← get
    return .ofNat (← onMachine (Machine.extend s.callback size))
  | "take" => some do
    let off ← offsetField v
    let size ← v.requiredWord "size"
    return .ofNat? (← onArena (Arena.occupy off size))
  | "merge" => some do
    let off ← offsetField v
    let other ← (← v.optionalWord "other").mapM checkedOffset
    return .ofNat (← onArena (Arena.absorb off other))
  | "zero" => some do
    let off ← offsetField v
    let len ← v.requiredWord "len"
    let m := (← get).machine
    let _ ← offsetOf m (m.arena.window.base + off + headerSize) len
    onArena (Arena.clearPayload off len)
    return .null
  | "verify" => some do
    let off ← offsetField v
    onMachine (Machine.checkClear off)
    return .null
  | "trim" => some do
    let off ← offsetField v
    let s ← get
    onMachine (Machine.trim s.callback off)
    return .null
  | "resolve" => some do
    let addr ← addressOf v
    return .ofNat (← inspect fun a => a.locate addr)
  | "stats" => some do
    return Render.totals (← inspect Arena.totals)
  | "header" => some do
    let off ← offsetField v
    let h ← inspect fun a => a.read off
    return .text (Render.segment ⟨off, h⟩)
  | "next" => some do
    let off ← offsetField v
    return .ofNat? (← inspect fun a => do a.successor off (← a.read off))
  | "prev" => some do
    let off ← offsetField v
    return .ofNat? (← inspect fun a => do a.predecessor off (← a.read off))
  | "payload" => some do
    let off ← offsetField v
    return .ofAddress ((← get).machine.arena.payload off)
  | "addr" => some do
    let off ← v.requiredWord "off"
    return .ofAddress ((← get).machine.arena.addr off)
  | "update" => some do
    let off ← offsetField v
    let h ← onArena (Arena.amend off (headerChange v))
    return .text (Render.segment ⟨off, h⟩)
  | "segments" => some do
    return .list (walkItems (← get).machine.arena.walk)
  | _ => none

/-! ## A bare window -/

/-- The step on a window a name stands for. -/
def windowStep? (verb : String) (v : Value) : Option (ScriptM Value) :=
  match verb with
  | "set_top" => some do
    let top ← v.requiredWord "top"
    let s ← get
    return .ofNat (← onMachine (Machine.moveTop s.callback top))
  | "fits" => some do
    let top ← v.requiredWord "top"
    return .flag ((← get).machine.arena.admits top)
  | "addr" => some do
    let off ← v.requiredWord "off"
    return .ofAddress ((← get).machine.arena.addr off)
  | "zero" => some do
    let off ← v.requiredWord "off"
    let len ← v.requiredWord "len"
    let m := (← get).machine
    let off ← offsetOf m (m.arena.window.base + off) len
    onArena (Arena.clear off len)
    return .null
  | "info" => some do
    return .record (Render.windowFields (← get).machine.arena.window)
  | _ => none

/-! ## The lock alone -/

/-- A guard that is dropped while others wait: the slot it is in, and the turn
of waiting it is dropped in. -/
structure Handover where
  slot : Nat
  turn : Nat

/-- One turn of waiting for the lock.  In the turn of the handover the guard is
dropped, if its slot holds one, and patience is not looked at. -/
def waitTurn (guardSlot : Option Nat) (handover : Option Handover) : HeapM Unit := do
  let turn := (← get).patience.yields + 1
  match handover with
  | some h =>
    if turn = max h.turn 1 then
      Machine.record .yield
      modify fun m => { m with patience := { m.patience with yields := turn } }
      if guardSlot = some h.slot then Machine.releaseLock
    else Machine.yieldNow
  | none => Machine.yieldNow

/-- Takes the lock and puts its guard into a slot. -/
def lockStep (v : Value) : ScriptM Value := do
  let slot ← v.requiredWord "slot"
  let s ← get
  if s.guardSlot = some slot then throw (.refused .badInput)
  let limit := v.wordField "yields" 3
  let handover : Option Handover :=
    (v.wordField? "release").map fun r => ⟨r, v.wordField "after" 1⟩
  onMachine do
    modify fun m => { m with patience := ⟨0, limit⟩ }
    Machine.takeLock (waitTurn s.guardSlot handover) (← get).context.id (siteOf v) []
      (limit + 2)
  modify fun s => { s with guardSlot := some slot }
  return .ofNat s.cell

/-- Drops the guard in a slot and tells whether there was one. -/
def unlockStep (v : Value) : ScriptM Value := do
  let slot ← v.requiredWord "slot"
  if (← get).guardSlot = some slot then
    onMachine Machine.releaseLock
    modify fun s => { s with guardSlot := none }
    return .flag true
  else return .flag false

/-- Reads the protected value through the guard in a slot. -/
def getStep (v : Value) : ScriptM Value := do
  let slot ← v.requiredWord "slot"
  let s ← get
  return if s.guardSlot = some slot then .ofNat s.cell else .null

/-- Writes the protected value through the guard in a slot. -/
def putStep (v : Value) : ScriptM Value := do
  let slot ← v.requiredWord "slot"
  let value ← v.requiredWord "value"
  if (← get).guardSlot = some slot then
    modify fun s => { s with cell := value }
    return .flag true
  else return .flag false

/-- The step on the lock a name stands for. -/
def lockStep? (verb : String) (v : Value) : Option (ScriptM Value) :=
  match verb with
  | "lock" => some (lockStep v)
  | "unlock" => some (unlockStep v)
  | "get" => some (getStep v)
  | "put" => some (putStep v)
  | _ => none

end GuardedHeap.Session
