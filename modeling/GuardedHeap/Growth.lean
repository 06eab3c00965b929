/-
  Growth.lean --- the top of the heap moves.

  WHAT THIS FILE IS FOR.  The pages below the top are backed by frames.  Moving
  the top up maps fresh pages one at a time, each cleared and counted before the
  next is asked for, so that running out of frames leaves the top at the end of
  the last page that was mapped.  Moving it down clears what is left behind and
  unmaps whole pages from the top.

  On that rest the two steps that change the last segment: `extend` makes room
  at the end of the list, `trim` gives the end of the list back.
-/
import GuardedHeap.Machine

set_option autoImplicit false

namespace GuardedHeap.Machine

/-! ## Moving the top -/

/-- Maps `count` pages from `index` on, for a top that will be `newTop`. -/
def mapPages (callback : Callback) (newTop : Nat) : Nat → Nat → HeapM Unit
  | _, 0 => pure ()
  | index, count + 1 => do
    let page ← (← get).pageNumber? index
    match ← allocateFrame callback with
    | none => throw (.detected (.outOfFrames page))
    | some frame =>
      log (.mapPage page frame)
      mapPage callback index frame
      let start ← Word.mul index pageSize
      onArena (Arena.clear start pageSize)
      let next ← Word.add index 1
      let stop ← Word.mul next pageSize
      onArena (Arena.setTop (min newTop stop))
    mapPages callback newTop (index + 1) count

/-- Unmaps `count` pages below the page `stop`, the highest first. -/
def unmapPages (callback : Callback) (stop : Nat) : Nat → HeapM Unit
  | 0 => pure ()
  | count + 1 => do
    let index := stop - 1
    let page ← (← get).pageNumber? index
    log (.unmapPage page)
    if let some frame ← unmapPage callback index then releaseFrame callback frame
    unmapPages callback index count

/-- Moves the top and returns where it was. -/
def moveTop (callback : Callback) (newTop : Nat) : HeapM Nat := do
  let m ← get
  let oldTop := m.arena.top
  let window := m.arena.window
  if window.ceiling < newTop then throw (.panic .topAboveMaximum)
  if newTop < window.floor then throw (.panic .topBelowMinimum)
  let mapped := pagesBelow oldTop
  let needed := pagesBelow newTop
  if mapped < needed then mapPages callback newTop mapped (needed - mapped)
  else
    if newTop < oldTop then onArena (Arena.clear newTop (oldTop - newTop))
    unmapPages callback mapped (mapped - needed)
  onArena (Arena.setTop newTop)
  return oldTop

/-! ## The end of the list -/

/-- The top that makes the last segment a free one of `size` bytes: a free one
grows in place, a used one gets a successor. -/
def topFor (top size : Nat) (last : Header) : Nat :=
  if last.used then Word.saturatingAdd (Word.saturatingAdd top headerSize) size
  else Word.saturatingAdd top (size - last.size)

/-- Grows the heap so that the last segment is free with a payload of exactly
`size` bytes, and returns its offset. -/
def extend (callback : Callback) (size : Nat) : HeapM Nat := do
  let a := (← get).arena
  let last ← a.read a.last
  let top := a.top
  if !last.used && size ≤ last.size then throw (.panic .growthNotNeeded)
  let newTop := topFor top size last
  if !a.admits newTop then
    let t ← a.totals
    throw (.detected (.ceilingReached (newTop - top) top a.window.ceiling t.usedBytes t.usedBlocks))
  log (.growTop (a.addr top) (a.addr newTop))
  let _ ← moveTop callback newTop
  if last.used then
    onArena do
      Arena.writeHeader top (Header.free (some a.last) none size)
      Arena.writeHeader a.last { last with next := some top }
      Arena.setLast top
    return top
  else
    onArena (Arena.writeHeader a.last { last with size := size })
    return a.last

/-- Gives memory back when the free segment at `off` is the last one.  One that
starts at or above the reserved minimum is removed, one that straddles it is
cut to end there, and the first segment is never removed. -/
def trim (callback : Callback) (off : Nat) : HeapM Unit := do
  let a := (← get).arena
  if off = a.last then
    let h ← a.read off
    if h.used then throw (.panic .segmentInUse)
    let floor := a.window.floor
    if off ≠ 0 ∧ floor ≤ off then
      match ← a.predecessor off h with
      | none => throw (a.brokenLink off Word.largest)
      | some prev =>
        let before ← a.read prev
        onArena do
          Arena.writeHeader prev { before with next := none }
          Arena.setLast prev
        let _ ← moveTop callback off
    else
      let payload ← Word.add off headerSize
      let stop ← Word.add payload h.size
      if floor < stop then
        let size := floor - payload
        onArena (Arena.writeHeader off { h with size := size })
        let _ ← moveTop callback (payload + size)

end GuardedHeap.Machine
