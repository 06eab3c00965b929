/-
  Script/RawStep.lean --- steps beside the heap.

  WHAT THIS FILE IS FOR.  What clients and the platform do on their own: bytes are
  read and written, headers are damaged field by field, frames come and go, and
  another context runs.  None of these calls the heap, so they work on any
  machine, also in the middle of a platform call.
-/
import GuardedHeap.Script.Session

set_option autoImplicit false

namespace GuardedHeap.Session

/-! ## The platform -/

/-- The platform with `count` new frames on its stack. -/
def addFrames (p : Platform) : Nat → Platform
  | 0 => p
  | count + 1 =>
    addFrames { p with frames := p.nextFrame :: p.frames, nextFrame := p.nextFrame + 1 } count

/-- Changes what runs and what the platform has. -/
def setStep (v : Value) : HeapM Reply := do
  modify fun m =>
    let c := m.context
    let context : Context :=
      { id := ((v.wordField? "ctx").map contextOfWord).getD c.id
        cpu := v.wordField "cpu" c.cpu
        booted := v.flagField "booted" c.booted
        interrupts := v.flagField "interrupts" c.interrupts }
    let p := { m.platform with keepFrames := v.flagField "keep_frames" m.platform.keepFrames }
    let p := addFrames p (v.wordField "add_frames" 0)
    let p := { p with frames := p.frames.drop (v.wordField "take_frames" 0) }
    { m with context := context, platform := p }
  return .done

/-! ## Bytes -/

/-- Changes the contents of the window. -/
def modifyMemory (f : Memory → Memory) : HeapM Unit :=
  Machine.onArena <| modify fun a => { a with memory := f a.memory }

/-- Sets bytes to one value. -/
def fillStep (names : Names) (v : Value) : HeapM Reply := do
  let addr ← pointerField (← get) names v
  let len ← v.requiredWord "len"
  let byte ← v.requiredWord "byte"
  let off ← offsetOf (← get) addr len
  modifyMemory fun m => m.fill off (UInt8.ofNat byte) len
  return .done

/-- Writes bytes given as digits. -/
def writeStep (names : Names) (v : Value) : HeapM Reply := do
  let addr ← pointerField (← get) names v
  match (v.textField? "hex").bind Hex.bytes? with
  | none => throw (.refused .badInput)
  | some bytes =>
    let off ← offsetOf (← get) addr bytes.length
    modifyMemory fun m => m.writeBytes off bytes
    return .done

/-- Shows bytes. -/
def readStep (names : Names) (v : Value) : HeapM Reply := do
  let m ← get
  let addr ← pointerField m names v
  let len ← v.requiredWord "len"
  let off ← offsetOf m addr len
  return .bytes m.arena.memory off len

/-- Shows all payloads and the mapped bytes behind the last one. -/
def memStep : HeapM Reply := do
  let m ← get
  return .payloads m.arena.memory (mappedBytes m)

/-! ## Headers -/

/-- A field of a header given by name, as a change of the header at an
offset. -/
def pokeField (v : Value) (off : Nat) : String → Except Fault (Memory → Memory)
  | "guard" => do
    let w ← v.requiredWord "value"
    return fun m => m.writeWord off 4 w
  | "used" => do
    let w ← v.requiredWord "value"
    return fun m => m.set (off + 4) (if w = 0 then 0 else 1)
  | "size" => do
    let w ← v.requiredWord "value"
    return fun m => m.writeWord (off + 8) 8 w
  | "prev" => do
    let w ← v.optionalWord "value"
    return fun m => m.writeWord (off + 16) 8 (Header.linkWord w)
  | "next" => do
    let w ← v.optionalWord "value"
    return fun m => m.writeWord (off + 24) 8 (Header.linkWord w)
  | "allocated_at" => do
    let w ← v.optionalWord "value"
    return fun m => m.writeWord (off + 32) 8 (Header.siteWord (w.map siteOfNumber))
  | "allocated_by" => do
    let w ← v.optionalWord "value"
    return fun m => Header.storeOwner m off (w.map contextOfWord)
  | "freed_at" => do
    let w ← v.optionalWord "value"
    return fun m => m.writeWord (off + 56) 8 (Header.siteWord (w.map siteOfNumber))
  | "new" => do
    let size ← v.requiredWord "value"
    let prev ← v.optionalWord "prev"
    let next ← v.optionalWord "next"
    return fun m => Header.store m off (Header.free prev next size)
  | _ => refuse .badInput

/-- Changes a header in memory, whatever the heap makes of it. -/
def pokeStep (names : Names) (v : Value) : HeapM Reply := do
  let addr ← pointerField (← get) names v
  if addr % granule ≠ 0 then throw (.refused .badInput)
  let off ← offsetOf (← get) addr headerSize
  let change ← pokeField v off ((v.textField? "field").getD "")
  modifyMemory change
  return .done

/-! ## The step -/

/-- The step a name stands for, if it is one beside the heap. -/
def rawStep? (names : Names) (verb : String) (v : Value) : Option (HeapM Reply) :=
  match verb with
  | "set" => some (setStep v)
  | "fill" => some (fillStep names v)
  | "write" => some (writeStep names v)
  | "read" => some (readStep names v)
  | "poke" => some (pokeStep names v)
  | "mem" => some memStep
  | _ => none

end GuardedHeap.Session
