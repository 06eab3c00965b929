/-
  Script/Sighting.lean --- headers as they stand in memory.

  WHAT THIS FILE IS FOR.  A walk over raw memory that trusts nothing: it follows
  next links from the base of the window, and shows what stands at each place,
  damaged or not.  Answers show a heap this way, whatever the heap itself would
  make of its headers.
-/
import GuardedHeap.Arena

set_option autoImplicit false

namespace GuardedHeap

/-- A place where a walk over raw memory found a header, or something else. -/
inductive Sighting where
  | intact (s : Segment)
  | damaged (offset guard size : Nat)
  deriving DecidableEq, Repr

/-- The places a walk along next links finds, and whether it ended at a header
without a next link. -/
structure Sightings where
  places : List Sighting
  complete : Bool
  deriving DecidableEq, Repr

/-- What stands at an offset. -/
def Sighting.ofMemory (m : Memory) (off : Nat) : Sighting :=
  if Header.guardAt m off = guardWord then .intact ⟨off, Header.load m off⟩
  else .damaged off (Header.guardAt m off) (Header.sizeAt m off)

/-- Where a walk may go on to after the header of a segment: forward, on the
granule, and to a whole header below `limit`. -/
def Segment.onward? (limit : Nat) (s : Segment) : Option Nat :=
  match s.header.next with
  | none => none
  | some next =>
    if s.offset < next ∧ next % granule = 0 ∧ next + headerSize ≤ limit then some next else none

namespace Sightings

/-- Follows next links through raw memory from a header that lies below `limit`.
A wrong guard ends the walk, and so does a link that leads nowhere.  The fuel
is the number of headers that can follow. -/
def walkFrom (m : Memory) (limit : Nat) : Nat → Nat → Sightings
  | 0, _ => ⟨[], false⟩
  | fuel + 1, off =>
    match Sighting.ofMemory m off with
    | .damaged off guard size => ⟨[.damaged off guard size], false⟩
    | .intact s =>
      match s.onward? limit with
      | none => ⟨[.intact s], s.header.next.isNone⟩
      | some next =>
        let rest := walkFrom m limit fuel next
        ⟨.intact s :: rest.places, rest.complete⟩

/-- The walk from the base of the window on, through the bytes below `limit`. -/
def find (m : Memory) (limit : Nat) : Sightings :=
  if headerSize ≤ limit then walkFrom m limit (limit / granule) 0 else ⟨[], false⟩

/-- The segments with a payload below `limit`, up to the first place that has
none, and the end of the last of them if there is no such place. -/
def payloadsBelow (limit : Nat) : Nat → List Sighting → List Segment × Option Nat
  | stop, [] => ([], some stop)
  | _, .damaged .. :: _ => ([], none)
  | _, .intact s :: rest =>
    if s.stop ≤ limit then
      let (found, stop) := payloadsBelow limit s.stop rest
      (s :: found, stop)
    else ([], none)

end Sightings

end GuardedHeap
