/-
  Arena/Edit.lean --- changes to the segments of an arena.

  WHAT THIS FILE IS FOR.  The steps from which the heap operations are made:
  changing a header, taking a segment into use and splitting off what is left,
  merging two neighbors, clearing payloads, and the check that free memory is
  still clear.  Each reads the headers it depends on before it writes the first
  one.
-/
import GuardedHeap.Arena

set_option autoImplicit false

namespace GuardedHeap.Arena

/-! ## Single changes -/

/-- Writes the header of the segment at an offset. -/
def writeHeader (off : Nat) (h : Header) : ArenaM Unit :=
  modify fun a => { a with memory := Header.store a.memory off h }

/-- Clears a range of the window. -/
def clear (off len : Nat) : ArenaM Unit :=
  modify fun a => { a with memory := a.memory.zero off len }

/-- Clears `len` payload bytes of the segment at an offset. -/
def clearPayload (off len : Nat) : ArenaM Unit := do
  let start ← Word.add off headerSize
  clear start len

/-- Records where the last segment is. -/
def setLast (off : Nat) : ArenaM Unit := modify fun a => { a with last := off }

/-- Records the top. -/
def setTop (top : Nat) : ArenaM Unit := modify fun a => { a with top := top }

/-- Copies bytes inside the window. -/
def copyBytes (src dst len : Nat) : ArenaM Unit :=
  modify fun a => { a with memory := a.memory.copy src dst len }

/-- Changes the header at an offset and returns it as changed. -/
def amend (off : Nat) (f : Header → Header) : ArenaM Header := do
  let h ← (← get).read off
  writeHeader off (f h)
  return f h

/-! ## Splitting and merging -/

/-- Points the segment behind a change back to `off`.  Where there is none, `off`
is the last segment from now on. -/
def linkBack (next : Option Segment) (off : Nat) : ArenaM Unit :=
  match next with
  | some n => writeHeader n.offset { n.header with prev := some off }
  | none => setLast off

/-- Takes the segment at an offset into use with a payload of `size` bytes.
What is left over becomes a free segment of its own when it is more than a
header, and its offset is returned; otherwise it stays with the block. -/
def occupy (off size : Nat) : ArenaM (Option Nat) := do
  let a ← get
  let h ← a.read off
  if size % granule ≠ 0 then throw (.panic (.unalignedSize size))
  if h.size < size then throw (.panic (.segmentTooSmall h.size size))
  let next ← a.successorSegment off h
  let spare := h.size - size
  if headerSize < spare then
    let payload ← Word.add off headerSize
    let split ← Word.add payload size
    writeHeader split (Header.free (some off) (next.map Segment.offset) (spare - headerSize))
    linkBack next split
    writeHeader off { h with used := true, size := size, next := some split }
    return some split
  else
    writeHeader off { h with used := true }
    return none

/-- Merges two neighbors, the lower of which survives: its payload grows over
the header and the payload of the higher one, whose header is cleared. -/
def join (low high : Segment) : ArenaM Nat := do
  let a ← get
  if low.header.next ≠ some high.offset then
    throw (a.inconsistent low.offset .notNeighbor)
  let next ← a.successorSegment high.offset high.header
  if next.isNone ∧ high.offset ≠ a.last then
    throw (a.inconsistent high.offset .missingSuccessor)
  linkBack next low.offset
  let gained ← Word.add headerSize high.header.size
  let size ← Word.add low.header.size gained
  writeHeader low.offset { low.header with size := size, next := next.map Segment.offset }
  clear high.offset headerSize
  return low.offset

/-- Merges the neighbor `other`, if there is one and it is free, with the
segment at `keep`, and returns the offset of what survives. -/
def absorb (keep : Nat) : Option Nat → ArenaM Nat
  | none => return keep
  | some other => do
    let a ← get
    let kept ← a.read keep
    let taken ← a.read other
    if taken.used then return keep
    else if other < keep then join ⟨other, taken⟩ ⟨keep, kept⟩
    else join ⟨keep, kept⟩ ⟨other, taken⟩

/-! ## Free memory stays clear -/

/-- Checks that the payload of the free segment at an offset is still zero.  A
changed byte in a segment that remembers where it was freed is an error.
Without that record the payload is cleared from the first changed byte on, and
the address and value of that byte are returned.  The payload is looked at as one
object, so it may not be longer than one. -/
def checkClear (off : Nat) : ArenaM (Option (Nat × UInt8)) := do
  let a ← get
  let h ← a.read off
  if h.used then throw (.panic .segmentInUse)
  if Word.maxRequest < h.size then throw (.panic .payloadTooLong)
  let payload := off + headerSize
  match a.memory.findNonzero payload h.size with
  | none => return none
  | some dirty =>
    let addr ← Word.add (a.addr payload) (dirty - payload)
    let value := a.memory.get dirty
    match h.freedAt with
    | some freedAt => throw (.detected (.useAfterFree addr value freedAt))
    | none =>
      clear dirty (payload + h.size - dirty)
      return some (addr, value)

end GuardedHeap.Arena
