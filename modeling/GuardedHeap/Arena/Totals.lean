/-
  Arena/Totals.lean --- the audit of a whole arena.

  WHAT THIS FILE IS FOR.  The audit walks all segments, checks that each one
  names the one before it and that no two free ones are adjacent, adds up
  payloads and blocks, and at the end checks that the last segment is the
  recorded one and reaches the top.  Errors come in the order of addresses; a
  walk that fails does so after everything before it was checked.
-/
import GuardedHeap.Arena

set_option autoImplicit false

namespace GuardedHeap

/-- Sums over all segments of an arena. -/
structure Totals where
  /-- payload bytes of used segments -/
  usedBytes : Nat
  usedBlocks : Nat
  /-- payload bytes of free segments -/
  freeBytes : Nat
  freeBlocks : Nat
  /-- bytes from the base to the top -/
  heapSize : Nat
  mappedPages : Nat
  deriving DecidableEq, Repr

namespace Totals

/-- The sums before any segment was seen. -/
def start (a : Arena) : Totals := ⟨0, 0, 0, 0, a.top, a.mappedPages⟩

/-- Counts one segment. -/
def add (t : Totals) (s : Segment) : Except Fault Totals :=
  if s.header.used then do
    let sum ← Word.add t.usedBytes s.header.size
    return { t with usedBytes := sum, usedBlocks := t.usedBlocks + 1 }
  else do
    let sum ← Word.add t.freeBytes s.header.size
    return { t with freeBytes := sum, freeBlocks := t.freeBlocks + 1 }

end Totals

namespace Arena

/-- Checks a segment against the one visited before it. -/
def checkAfter (a : Arena) (before : Option Segment) (s : Segment) : Except Fault Unit :=
  match before with
  | none => .ok ()
  | some b =>
    if s.header.prev ≠ some b.offset then
      .error (a.brokenLink s.offset (s.header.prev.getD Word.largest))
    else if b.header.used = false ∧ s.header.used = false then
      .error (a.inconsistent s.offset .adjacentFree)
    else .ok ()

/-- Checks and counts segments in order, and tells which was the last. -/
def tally (a : Arena) : Option Segment → Totals → List Segment →
    Except Fault (Totals × Option Segment)
  | before, t, [] => .ok (t, before)
  | before, t, s :: rest => do
    a.checkAfter before s
    let t ← t.add s
    a.tally (some s) t rest

/-- Checks that the list ends where the arena says it does. -/
def checkLast (a : Arena) (s : Segment) : Except Fault Unit :=
  if s.offset ≠ a.last then .error (a.inconsistent s.offset .lastMisplaced)
  else do
    let payload ← Word.add s.offset headerSize
    let stop ← Word.add payload s.header.size
    if stop ≠ a.top then throw (a.inconsistent s.offset .lastShort)

/-- Audits the arena and returns its sums. -/
def totals (a : Arena) : Except Fault Totals := do
  let w := a.walk
  let (t, last) ← a.tally none (.start a) w.segments
  if let some f := w.failure then throw f
  if let some s := last then a.checkLast s
  return t

end Arena

end GuardedHeap
