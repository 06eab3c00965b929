/-
  Heap.lean --- the operations of the heap.

  WHAT THIS FILE IS FOR.  Giving out blocks, taking them back and resizing them,
  listing what is in use, and the audit.  Each operation that touches segments
  runs under the lock.  The operations named after what they try end with a
  detected error; the public ones below them turn that into a report, since the
  heap returns no errors to its callers.

  Payloads handed out are zero: free memory is kept clear, and checked to be
  clear before it is used again.
-/
import GuardedHeap.Growth

set_option autoImplicit false

namespace GuardedHeap.Machine

/-! ## Work on segments, under the lock -/

/-- The first-fit search, with a line for every segment it looks at. -/
def search (size : Nat) : HeapM (Option Nat) := do
  let a := (← get).arena
  (Arena.lookedAt size a.walk.segments).forM fun s =>
    log (.visited (a.addr s.offset) s.header.size s.header.used)
  a.firstFit size

/-- Checks that a free payload is clear, with a warning if it had to be
cleared. -/
def checkClear (off : Nat) : HeapM Unit := do
  if let some (addr, value) ← onArena (Arena.checkClear off) then log (.notZero addr value)

/-- Finds or makes a free segment of `size` bytes, takes it into use and
records who asked for it while tracing. -/
def takeSegment (callback : Callback) (size : Nat) (site : CallSite) : HeapM Nat := do
  let off ← match ← search size with
    | some off => pure off
    | none => extend callback size
  checkClear off
  let _ ← onArena (Arena.occupy off size)
  let m ← get
  let stamp (h : Header) : Header :=
    { h with
      allocatedAt := if m.tracing then some site else none
      allocatedBy := if m.tracing then some m.context.id else none
      freedAt := none }
  let _ ← onArena (Arena.amend off stamp)
  return off

/-- Reads the headers that a merge with the neighbors of a segment will touch
beyond it: the neighbors, and what lies behind the free ones. -/
def inspectNeighbors (a : Arena) (prev next : Option Nat) : Except Fault Unit := do
  if let some prev := prev then
    let h ← a.read prev
    if !h.used then
      if let some before ← a.predecessor prev h then
        let _ ← a.read before
  if let some next := next then
    let h ← a.read next
    if !h.used then
      if let some after ← a.successor next h then
        let _ ← a.read after

/-- Returns the used segment at an offset: it becomes free, merges with free
neighbors, is cleared, and goes back to the platform as far as it can.  The
audit at the end covers the whole arena. -/
def releaseSegment (callback : Callback) (off : Nat) (site : CallSite) : HeapM Unit := do
  let a := (← get).arena
  let h ← a.read off
  if !h.used then throw (.detected (.doubleFree (a.addr off) h.size h.freedAt))
  let prev ← a.predecessor off h
  let next ← a.successor off h
  inspectNeighbors a prev next
  let merged ← onArena do
    let _ ← Arena.amend off fun h => { h with used := false }
    let off ← Arena.absorb off prev
    let off ← Arena.absorb off next
    let h ← Arena.amend off fun h => { h with freedAt := some site }
    Arena.clearPayload off h.size
    return off
  trim callback merged
  let _ ← (← get).arena.totals

/-! ## Allocation -/

/-- Gives out a block of at least `size` bytes. -/
def tryAllocate (callback : Callback) (size : Nat) (site : CallSite) : HeapM Nat := do
  if Word.maxRequest < size then throw (.detected (.sizeOverflow size))
  let size := max (← Word.rounded size) granule
  log (.allocating size site)
  locked site do
    let off ← takeSegment callback size site
    return (← get).arena.payload off

/-- Takes the block at an address back. -/
def tryFree (callback : Callback) (address : Nat) (site : CallSite) : HeapM Unit := do
  log (.freeing address site)
  locked site do
    let off ← (← get).arena.locate address
    releaseSegment callback off site

/-! ## Resizing -/

/-- Cuts a block down to `size` bytes.  The tail still holds old contents; it
is cleared, merged with a free successor and given back. -/
def shrink (callback : Callback) (off size : Nat) : HeapM Unit := do
  if let some tail ← onArena (Arena.occupy off size) then
    let merged ← onArena do
      let a ← get
      let h ← a.read tail
      Arena.clearPayload tail h.size
      let next ← (← get).successor tail h
      Arena.absorb tail next
    trim callback merged

/-- The free successor that together with the block gives `size` bytes. -/
def roomBehind (a : Arena) (off size : Nat) (h : Header) : Except Fault (Option Nat) := do
  match ← a.successor off h with
  | none => return none
  | some next =>
    let behind ← a.read next
    if behind.used then return none
    let sum ← Word.add h.size headerSize
    let sum ← Word.add sum behind.size
    return if size ≤ sum then some next else none

/-- Lets a block grow over its free successor; what is left over goes back. -/
def growInPlace (callback : Callback) (off size next : Nat) : HeapM Unit := do
  checkClear next
  let tail ← onArena do
    let _ ← Arena.absorb off (some next)
    Arena.occupy off size
  if let some tail := tail then trim callback tail

/-- Moves a block with a payload of `held` bytes to a new place of `size`
bytes.  The old one is released after the bytes were copied. -/
def relocate (callback : Callback) (off held size : Nat) (site : CallSite) : HeapM Nat := do
  let target ← takeSegment callback size site
  let address := (← get).arena.payload target
  onArena (Arena.copyBytes (off + headerSize) (target + headerSize) held)
  releaseSegment callback off site
  return address

/-- Gives the used block at an address another size, in place where it can. -/
def resizeBlock (callback : Callback) (address size : Nat) (site : CallSite) : HeapM Nat := do
  let a := (← get).arena
  let off ← a.locate address
  let h ← a.read off
  if !h.used then throw (.detected (.notAllocated (a.addr off)))
  if size ≤ h.size then
    shrink callback off size
    return address
  else
    match ← roomBehind a off size h with
    | some next =>
      growInPlace callback off size next
      return address
    | none => relocate callback off h.size size site

/-- Resizes the used block at an address, under the lock. -/
def tryResize (callback : Callback) (address size : Nat) (site : CallSite) : HeapM Nat := do
  let size ← Word.rounded size
  log (.resizing address size site)
  locked site (resizeBlock callback address size site)

/-- Resizes a block: nothing becomes a fresh block, and a block of no bytes is
freed. -/
def tryReallocate (callback : Callback) (address size : Nat) (site : CallSite) : HeapM Nat := do
  if Word.maxRequest < size then throw (.detected (.sizeOverflow size))
  if size = 0 then
    if address ≠ 0 then tryFree callback address site
    return 0
  else if address = 0 then tryAllocate callback size site
  else tryResize callback address size site

/-! ## Looking at the heap -/

/-- Payload bytes and blocks, added up over a listing. -/
structure Usage where
  used : Nat
  blocks : Nat
  unused : Nat
  deriving DecidableEq, Repr

/-- The line for a block in a listing, if it was traced. -/
def usageLine (h : Header) : Option LogLine :=
  match h.allocatedAt, h.allocatedBy with
  | some site, some owner => some (.usageBlock h.size owner site)
  | _, _ => none

/-- Adds up segments in order, with a line for every traced block if details
are asked for. -/
def addUsage (details : Bool) : Usage → List Segment → HeapM Usage
  | u, [] => return u
  | u, s :: rest => do
    if s.header.used then
      let used ← Word.add u.used s.header.size
      if details then
        if let some line := usageLine s.header then log line
      addUsage details { u with used := used, blocks := u.blocks + 1 } rest
    else
      let unused ← Word.add u.unused s.header.size
      addUsage details { u with unused := unused } rest

/-- How much of all payloads is in use, in whole percent. -/
def Usage.percent (u : Usage) : Except Fault Nat := do
  let scaled ← Word.mul u.used 100
  let all ← Word.add u.used u.unused
  return scaled / all

/-- The payload bytes in use, with a listing if details are asked for. -/
def tryUsedBytes (details : Bool) (site : CallSite) : HeapM Nat := do
  let u ← locked site do
    if details then log .usageHeading
    let w := (← get).arena.walk
    let u ← addUsage details ⟨0, 0, 0⟩ w.segments
    if let some f := w.failure then throw f
    return u
  if details then
    let percent ← u.percent
    log (.usageTotal u.used u.blocks percent)
  return u.used

/-- The sums of an audit. -/
def tryTotals (site : CallSite) : HeapM Totals :=
  locked site do
    (← get).arena.totals

/-! ## The public operations -/

/-- Gives out a zeroed block of at least `size` bytes and returns the address
of its payload. -/
def allocate (callback : Callback) (size : Nat) (site : CallSite) : HeapM Nat :=
  reporting site (tryAllocate callback size site)

/-- Takes a block back; a null address is left alone and answered with
`false`. -/
def free (callback : Callback) (address : Nat) (site : CallSite) : HeapM Bool :=
  if address = 0 then return false
  else do
    reporting site (tryFree callback address site)
    return true

/-- Resizes a block and returns where it is now, zero if it was freed. -/
def reallocate (callback : Callback) (address size : Nat) (site : CallSite) : HeapM Nat :=
  reporting site (tryReallocate callback address size site)

/-- The payload bytes in use. -/
def usedBytes (details : Bool) (site : CallSite) : HeapM Nat :=
  reporting site (tryUsedBytes details site)

/-- Audits the heap and returns its sums. -/
def stats (site : CallSite) : HeapM Totals := reporting site (tryTotals site)

/-- Audits the heap. -/
def audit (site : CallSite) : HeapM Unit := do
  let _ ← stats site

/-- The address of the current end of the heap. -/
def topAddress (site : CallSite) : HeapM Nat := do
  let t ← stats site
  Word.add t.heapSize (← get).arena.window.base

/-- Starts or stops recording who allocates blocks. -/
def setTracing (on : Bool) : HeapM Unit := modify fun m => { m with tracing := on }

/-! ## A new heap -/

/-- Takes over the window: clears what is backed from the start. -/
def claimWindow : HeapM Unit := do
  let a := (← get).arena
  log (.started (a.addr 0) (a.addr a.top))
  onArena (Arena.clear 0 a.top)

/-- Covers the whole window with one free segment. -/
def coverWindow : HeapM Unit := do
  let a := (← get).arena
  onArena (Arena.writeHeader 0 (Header.free none none (a.top - headerSize)))

end GuardedHeap.Machine
