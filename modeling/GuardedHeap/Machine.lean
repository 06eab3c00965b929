/-
  Machine.lean --- a heap together with everything around it.

  WHAT THIS FILE IS FOR.  A `Machine` is an arena with its lock, the platform
  that backs it, the running context, and what happened so far: the journal of
  log lines and the platform events.  `HeapM` is the type of operations on it:
  they end with a value or a fault, and leave a changed machine either way.

  A platform call may run other code before it does its work.  That code is a
  `Callback`, a parameter of every operation that makes platform calls; with
  `Callback.none` nothing else runs.  A `Trap` counts down platform calls of one
  kind, so that a callback can act on a chosen one.

  Waiting for the lock gives up the processor again and again.  `Patience`
  bounds how often that may happen before the platform stops the caller.
-/
import GuardedHeap.Arena.Edit
import GuardedHeap.Arena.Totals
import GuardedHeap.Journal
import GuardedHeap.Lock
import GuardedHeap.Platform

set_option autoImplicit false

namespace GuardedHeap

/-- What an operation on a machine answers. -/
inductive Reply where
  | done
  | flag (b : Bool)
  | count (n : Nat)
  /-- an address that is shown as such -/
  | address (addr : Nat)
  /-- a pointer handed to the client, zero for none -/
  | pointer (addr : Nat)
  | totals (t : Totals)
  | holder (c : Option ContextId)
  | description (w : Window) (c : ContextId)
  /-- a range of bytes, as it stood -/
  | bytes (m : Memory) (offset length : Nat)
  /-- the payloads in mapped memory, as they stood -/
  | payloads (m : Memory) (mapped : Nat)

/-- What happened at the platform. -/
inductive Event where
  /-- a frame was asked for, and which one was given -/
  | frame (given : Option Nat)
  | map (page frame : Nat)
  | unmap (page : Nat)
  | release (frame : Nat)
  /-- a waiting context gave up the processor -/
  | yield
  /-- an operation that ran inside a platform call ended so -/
  | nested (outcome : Except Fault Reply)

/-- How often waiting callers gave up the processor, and how often they may. -/
structure Patience where
  yields : Nat
  limit : Nat
  deriving DecidableEq, Repr

/-- A one-shot trap on a platform call: `skip` calls of the kind pass first. -/
structure Trap where
  on : PlatformCall
  skip : Nat
  deriving DecidableEq, Repr

/-- A heap together with everything around it. -/
structure Machine where
  arena : Arena
  lock : Lock
  /-- new blocks record who allocated them -/
  tracing : Bool
  /-- the heap serves as the allocator of the system -/
  installed : Bool
  platform : Platform
  context : Context
  patience : Patience
  trap : Option Trap
  journal : Array LogLine
  events : Array Event

/-- Operations on a machine.  A failed one leaves what it had changed so far. -/
abbrev HeapM := EStateM Fault Machine

/-- Code that runs at the start of a platform call. -/
abbrev Callback := PlatformCall → HeapM Unit

/-- Nothing runs inside platform calls. -/
def Callback.none : Callback := fun _ => pure ()

namespace Machine

/-- A machine before any heap: the first pages of the window are mapped and
stale, and nobody holds the lock. -/
def boot (w : Window) (frames : Nat) (c : Context) (keepFrames : Bool)
    (stale : UInt8) : Machine where
  arena :=
    { window := w
      top := w.floor
      last := 0
      memory := Memory.empty.fill 0 stale w.floor }
  lock := .unlocked
  tracing := false
  installed := false
  platform :=
    { frames := List.range frames
      nextFrame := frames
      pages := .boot (pagesBelow w.floor)
      keepFrames := keepFrames
      staleByte := stale }
  context := c
  patience := ⟨0, 3⟩
  trap := none
  journal := #[]
  events := #[]

/-! ## Parts of a machine -/

/-- Runs an operation of the arena on the arena of the machine. -/
def onArena {α : Type} (x : ArenaM α) : HeapM α := fun m =>
  match x m.arena with
  | .ok r a => .ok r { m with arena := a }
  | .error e a => .error e { m with arena := a }

/-- Adds a line to the journal. -/
def log (line : LogLine) : HeapM Unit :=
  modify fun m => { m with journal := m.journal.push line }

/-- Adds a platform event. -/
def record (e : Event) : HeapM Unit := modify fun m => { m with events := m.events.push e }

/-- Changes the platform. -/
def modifyPlatform (f : Platform → Platform) : HeapM Unit :=
  modify fun m => { m with platform := f m.platform }

/-! ## Platform calls -/

/-- The number of a page of the window. -/
def pageNumber (m : Machine) (index : Nat) : Nat := pageOf m.arena.window.base + index

/-- The number of a page, unless it leaves the range. -/
def pageNumber? (m : Machine) (index : Nat) : Except Fault Nat :=
  Word.add (pageOf m.arena.window.base) index

/-- Asks for a frame. -/
def allocateFrame (callback : Callback) : HeapM (Option Nat) := do
  callback .allocateFrame
  match (← get).platform.frames with
  | [] =>
    record (.frame none)
    return none
  | f :: rest =>
    record (.frame (some f))
    modifyPlatform fun p => { p with frames := rest }
    return some f

/-- Backs a page of the window with a frame, whose contents are stale. -/
def mapPage (callback : Callback) (index frame : Nat) : HeapM Unit := do
  callback .mapPage
  record (.map ((← get).pageNumber index) frame)
  modifyPlatform fun p => { p with pages := p.pages.insert index (some frame) }
  let stale := (← get).platform.staleByte
  onArena <| modify fun a =>
    { a with memory := a.memory.fill (index * pageSize) stale pageSize }

/-- Takes a page of the window away and returns the frame it was backed with. -/
def unmapPage (callback : Callback) (index : Nat) : HeapM (Option Nat) := do
  callback .unmapPage
  record (.unmap ((← get).pageNumber index))
  let p := (← get).platform
  let frame := (p.pages.get? index).join
  modifyPlatform fun p => { p with pages := p.pages.erase index }
  return if p.keepFrames then none else frame

/-- Gives a frame back. -/
def releaseFrame (callback : Callback) (frame : Nat) : HeapM Unit := do
  callback .releaseFrame
  record (.release frame)
  modifyPlatform fun p => { p with frames := frame :: p.frames }

/-! ## The lock -/

/-- Gives up the processor once.  A caller that has done so as often as patience
allows is stopped. -/
def yieldNow : HeapM Unit := do
  record .yield
  let p := (← get).patience
  let yields := p.yields + 1
  modify fun m => { m with patience := { p with yields := yields } }
  if p.limit ≤ yields then throw (.panic (.blocked yields))

/-- One attempt to take the lock for a call from `site`; tells whether it is
held now.  The exchange fails on a free lock if `spurious` says so. -/
def tryLock (spurious : Bool) (me : ContextId) (site : CallSite) : HeapM Bool := do
  match (← get).lock.attempt spurious me site with
  | .acquired l =>
    modify fun m => { m with lock := l }
    return true
  | .reentered holder takenAt => throw (.detected (.recursiveLock holder takenAt))
  | .contended => return false

/-- Takes the lock for a call from `site`.  While an attempt fails the caller
waits, for at most `turns` turns, and runs `wait` in each.  The list says of each
attempt in turn whether its exchange fails for no reason; behind its end none
does. -/
def takeLock (wait : HeapM Unit) (me : ContextId) (site : CallSite) : List Bool → Nat → HeapM Unit
  | spurious, 0 => do
    if !(← tryLock (spurious.headD false) me site) then
      throw (.panic (.blocked (← get).patience.yields))
  | spurious, turns + 1 => do
    if !(← tryLock (spurious.headD false) me site) then
      wait
      takeLock wait me site spurious.tail turns

/-- Gives the lock back. -/
def releaseLock : HeapM Unit := do
  if (← get).lock.locked then modify fun m => { m with lock := .unlocked }
  else throw (.panic .lockNotHeld)

/-- Checks that the heap may be used here and now, and takes the lock.  An exchange that
fails for no reason would cost a turn of yielding and nothing else; none does here. -/
def enter (site : CallSite) : HeapM Unit := do
  let m ← get
  if m.context.booted then
    if !m.context.interrupts then throw (.detected (.interruptsDisabled m.context.cpu))
    log (.locking m.context.cpu)
  takeLock yieldNow m.context.id site [] (m.patience.limit + 1)

/-- Runs the body under the lock.  However the body ends, the lock is free
afterwards; the end of a body that returns is logged. -/
def locked {α : Type} (site : CallSite) (body : HeapM α) : HeapM α := do
  enter site
  let r ← tryCatch body fun e => do
    releaseLock
    throw e
  releaseLock
  let m ← get
  if m.context.booted then log (.unlocking m.context.cpu)
  return r

/-- Turns a detected error of the body into a report that halts the caller. -/
def reporting {α : Type} (site : CallSite) (body : HeapM α) : HeapM α :=
  tryCatch body fun
    | .detected error => do
      log (.failing error)
      let c := (← get).context
      throw (.fatal ⟨error, ⟨site, c.id, c.cpu⟩⟩)
    | other => throw other

end Machine

end GuardedHeap
