/-
  Script/Render.lean --- how answers show what a machine did.

  WHAT THIS FILE IS FOR.  Replies, faults, platform events, headers and ranges of
  bytes as documents.  Bytes are shown as runs, `5a*100 00*12`.  The bytes of a
  header differ from build to build in what they do not say, so wherever a guard
  stands on the granule the 64 bytes from there are shown as `hd`.
-/
import GuardedHeap.Machine
import GuardedHeap.Script.Sighting
import GuardedHeap.Script.Value

set_option autoImplicit false

namespace GuardedHeap.Render

/-! ## Faults, sums and limits -/

/-- The fields of a fault. -/
def faultFields : Fault → List (String × Value)
  | .refused reason => [("error", .text reason.name)]
  | .detected e => [("error", .text e.name), ("message", .text e.message)]
  | .fatal r =>
    [("error", .text r.error.name), ("message", .text r.error.message),
      ("report", .text r.haltText)]
  | .panic cause => [("error", .text "Panic"), ("message", .text cause.message)]

/-- A fault as a document of its own. -/
def fault (f : Fault) : Value := .record (faultFields f)

/-- The sums of an audit. -/
def totals (t : Totals) : Value :=
  .record
    [("used_bytes", .ofNat t.usedBytes), ("used_blocks", .ofNat t.usedBlocks),
      ("free_bytes", .ofNat t.freeBytes), ("free_blocks", .ofNat t.freeBlocks),
      ("heap_size", .ofNat t.heapSize), ("mapped_pages", .ofNat t.mappedPages)]

/-- The limits of a window. -/
def windowFields (w : Window) : List (String × Value) :=
  [("base", .ofAddress w.base), ("min", .ofNat w.floor), ("max", .ofNat w.ceiling)]

/-- The lines of a journal up to a level of detail. -/
def journal (rank : Nat) (lines : Array LogLine) : List Value :=
  (lines.toList.filter fun l => l.level.rank ≤ rank).map fun l => .text l.shown

/-! ## Headers -/

/-- A value that may be missing, `-` for none. -/
def orDash (f : Nat → String) : Option Nat → String
  | some n => f n
  | none => "-"

/-- A recorded call site. -/
def site (s : Option CallSite) : String :=
  orDash (fun n => "s" ++ toString n) (s.map fun s => s.number.toNat)

/-- A segment, its fields parted by colons. -/
def segment (s : Segment) : String :=
  let h := s.header
  String.intercalate ":"
    [toString s.offset, toString h.size, if h.used then "U" else "F",
      orDash toString h.prev, orDash toString h.next, site h.allocatedAt,
      orDash toString (h.allocatedBy.map fun c => c.value.toNat), site h.freedAt]

/-- A place of a walk over raw memory. -/
def sighting : Sighting → String
  | .intact s => segment s
  | .damaged off guard size =>
    toString off ++ ":BAD:" ++ Hex.marked guard ++ ":" ++ Hex.marked size

/-! ## Ranges of bytes -/

/-- A guard stands at the `index`-th granule. -/
def guardAtGranule (m : Memory) (index : Nat) : Bool :=
  let off := index * granule
  m.get off == 0xef && m.get (off + 1) == 0xbe && m.get (off + 2) == 0xad &&
    m.get (off + 3) == 0xde

/-- A byte lies in the 64 bytes from some guard on. -/
def insideHeader (m : Memory) (off : Nat) : Bool :=
  let g := off / granule
  guardAtGranule m g || (1 ≤ g && guardAtGranule m (g - 1)) ||
    (2 ≤ g && guardAtGranule m (g - 2)) || (3 ≤ g && guardAtGranule m (g - 3))

/-- A byte as it is shown, `none` for one inside a header. -/
def shownByte (m : Memory) (off : Nat) : Option UInt8 :=
  if insideHeader m off then none else some (m.get off)

/-- The runs of equal bytes from `off` on, after a run of `seen` bytes that
look like `current`. -/
def runsFrom (m : Memory) (current : Option UInt8) (seen : Nat) (off : Nat) :
    Nat → List (Option UInt8 × Nat)
  | 0 => [(current, seen)]
  | len + 1 =>
    let b := shownByte m off
    if b = current then runsFrom m current (seen + 1) (off + 1) len
    else (current, seen) :: runsFrom m b 1 (off + 1) len

/-- The runs of equal bytes in a range. -/
def runsOf (m : Memory) (off : Nat) : Nat → List (Option UInt8 × Nat)
  | 0 => []
  | len + 1 => runsFrom m (shownByte m off) 1 (off + 1) len

/-- One run. -/
def run : Option UInt8 × Nat → String
  | (some b, count) => Hex.byte b ++ "*" ++ toString count
  | (none, count) => "hd*" ++ toString count

/-- A range of bytes as runs. -/
def runs (m : Memory) (off len : Nat) : String :=
  String.intercalate " " ((runsOf m off len).map run)

/-- All payloads, and the mapped bytes behind the last one if a walk comes to its
end. -/
def payloads (m : Memory) (mapped : Nat) : Value :=
  let found := Sightings.find m mapped
  let (segments, stop) := Sightings.payloadsBelow mapped 0 found.places
  let slack : Value :=
    match found.complete, stop with
    | true, some stop => .text (runs m stop (mapped - stop))
    | _, _ => .null
  .record
    [("payloads", .ofTexts (segments.map fun s => runs m (s.offset + headerSize) s.header.size)),
      ("slack", slack)]

/-! ## Replies and events -/

/-- What an operation answered. -/
def reply : Reply → Value
  | .done => .null
  | .flag b => .flag b
  | .count n => .ofNat n
  | .address addr => .ofAddress addr
  | .pointer addr => .ofPointer addr
  | .totals t => totals t
  | .holder c => .ofNat? (c.map fun c => c.value.toNat)
  | .description w c => .record (windowFields w ++ [("ctx", .text c.text)])
  | .bytes m off len => .text (runs m off len)
  | .payloads m mapped => payloads m mapped

/-- What happened at the platform. -/
def event : Event → Value
  | .frame none => .text "frame none"
  | .frame (some f) => .text ("frame " ++ toString f)
  | .map page frame => .text ("map " ++ Hex.marked page ++ " " ++ toString frame)
  | .unmap page => .text ("unmap " ++ Hex.marked page)
  | .release frame => .text ("release " ++ toString frame)
  | .yield => .text "yield"
  | .nested (.ok r) => .record [("nested", reply r)]
  | .nested (.error f) => .record [("nested", fault f)]

end GuardedHeap.Render
