/-
  Fault.lean --- every way a heap operation can fail to return.

  WHAT THIS FILE IS FOR.  Nothing on the allocation path hands an error back to
  its caller.  What a check of the heap detects is a `HeapError`; the public
  operations turn it into a `Report` that names who called and who was running.
  Broken preconditions of the heap's own code (arithmetic that leaves 64 bits,
  an assertion) are a `Panic`.  A request that never reaches the heap, because
  it is malformed or names memory that is not there, is a `Refusal`.

  One constructor per cause; the wording of each is one function.
-/
import GuardedHeap.Identity
import GuardedHeap.Text.Hex

set_option autoImplicit false

namespace GuardedHeap

/-! ## Detected errors -/

/-- Which rule of the segment list a segment breaks. -/
inductive Inconsistency where
  /-- a merge was asked for two segments that do not follow each other -/
  | notNeighbor
  /-- a segment without successor is not the recorded last one -/
  | missingSuccessor
  /-- two free segments in a row -/
  | adjacentFree
  /-- the walk ends at a segment that is not the recorded last one -/
  | lastMisplaced
  /-- the last segment does not reach the top of the heap -/
  | lastShort
  /-- any other rule, given by its text -/
  | described (text : String)
  deriving DecidableEq, Repr

/-- The wording of a broken rule. -/
def Inconsistency.text : Inconsistency → String
  | notNeighbor => "merged with a segment that is not its neighbor"
  | missingSuccessor => "segment without successor is not the last one"
  | adjacentFree => "free segment follows another free segment"
  | lastMisplaced => "last segment is not where it is recorded"
  | lastShort => "last segment does not end at the heap top"
  | described text => text

/-- What the checks of the heap detect.  Addresses are absolute; the address of
a segment is that of its header. -/
inductive HeapError where
  /-- the request has its top bit set -/
  | sizeOverflow (size : Nat)
  /-- an address outside the payloads of the heap -/
  | addressOutOfRange (addr start stop : Nat)
  /-- an address inside the heap that no payload can start at -/
  | misalignedAddress (addr : Nat)
  /-- a free segment was to be resized -/
  | notAllocated (segment : Nat)
  /-- a call with interrupts off after boot -/
  | interruptsDisabled (cpu : Nat)
  /-- a context that holds the lock asked for it again -/
  | recursiveLock (holder : ContextId) (takenAt : CallSite)
  /-- a header without its guard -/
  | corrupted (segment size guard : Nat)
  /-- a link that does not lead to a neighbor inside the heap -/
  | brokenLink (segment link top : Nat)
  /-- a rule of the segment list is broken -/
  | inconsistent (segment : Nat) (detail : Inconsistency)
  /-- a byte of a freed payload is no longer zero -/
  | useAfterFree (addr : Nat) (value : UInt8) (freedAt : CallSite)
  /-- a free segment was freed -/
  | doubleFree (segment size : Nat) (freedAt : Option CallSite)
  /-- the request does not fit below the reserved maximum -/
  | ceilingReached (requested size max used blocks : Nat)
  /-- the platform has no frame to back a page -/
  | outOfFrames (page : Nat)
  deriving DecidableEq, Repr

namespace HeapError

/-- The name of the kind of error. -/
def name : HeapError → String
  | sizeOverflow .. => "SizeOverflow"
  | addressOutOfRange .. => "AddressOutOfRange"
  | misalignedAddress .. => "MisalignedAddress"
  | notAllocated .. => "NotAllocated"
  | interruptsDisabled .. => "InterruptsDisabled"
  | recursiveLock .. => "RecursiveLock"
  | corrupted .. => "Corrupted"
  | brokenLink .. => "BrokenLink"
  | inconsistent .. => "Inconsistent"
  | useAfterFree .. => "UseAfterFree"
  | doubleFree .. => "DoubleFree"
  | ceilingReached .. => "CeilingReached"
  | outOfFrames .. => "OutOfFrames"

/-- The message of an error. -/
def message : HeapError → String
  | sizeOverflow size =>
    "requested size " ++ Hex.marked size ++
      " does not fit in isize - requested too much memory"
  | addressOutOfRange addr start stop =>
    "invalid free of address " ++ Hex.marked addr ++ ", not inside the heap " ++
      Hex.marked start ++ ".." ++ Hex.marked stop
  | misalignedAddress addr =>
    "address " ++ Hex.marked addr ++ " cannot be a payload address of the heap"
  | notAllocated segment =>
    "segment " ++ Hex.marked segment ++ " is not in use and cannot be reallocated"
  | interruptsDisabled cpu =>
    "kernel heap used with interrupts disabled on cpu " ++ toString cpu
  | recursiveLock holder takenAt =>
    holder.text ++ " re-entered the kernel heap, lock already taken at " ++ takenAt.text
  | corrupted segment size guard =>
    "memory corruption in heap segment " ++ Hex.marked segment ++ ", size: " ++
      Hex.marked size ++ ", guard: " ++ Hex.marked guard ++
      " - probably 'write after free' or an overflow of the preceding segment"
  | brokenLink segment link top =>
    "heap segment " ++ Hex.marked segment ++ " links to " ++ Hex.marked link ++
      ", outside the heap (top: " ++ Hex.marked top ++ ")"
  | inconsistent segment detail =>
    "heap segment " ++ Hex.marked segment ++ " breaks the segment list: " ++ detail.text
  | useAfterFree addr value freedAt =>
    "freed memory modified at " ++ Hex.marked addr ++ " (value: " ++
      Hex.marked value.toNat ++ "), the segment was freed at " ++ freedAt.text
  | doubleFree segment size freedAt =>
    "double free of heap segment " ++ Hex.marked segment ++ " (size: " ++
      Hex.marked size ++ "), previously freed at " ++ CallSite.textOrUnknown freedAt
  | ceilingReached requested size max used blocks =>
    "kernel heap is out of memory: " ++ Hex.marked requested ++
      " more bytes needed, heap size " ++ Hex.marked size ++ " of " ++ Hex.marked max ++
      ", " ++ Hex.marked used ++ " bytes in " ++ toString blocks ++
      " blocks in use - are we leaking memory?"
  | outOfFrames page =>
    "no physical frame left to back kernel heap page " ++ Hex.marked page

/-- The errors with which an intact heap declines a call: the request is too large, it
comes at the wrong time, or there is no room for it. -/
def Declines : HeapError → Prop
  | sizeOverflow _ => True
  | interruptsDisabled _ => True
  | ceilingReached .. => True
  | outOfFrames _ => True
  | _ => False

end HeapError

/-! ## Reports -/

/-- Who was running when an error was detected, and where the call came from. -/
structure Attribution where
  caller : CallSite
  context : ContextId
  cpu : Nat
  deriving DecidableEq, Repr

/-- A fatal error with its attribution. -/
structure Report where
  error : HeapError
  attribution : Attribution
  deriving DecidableEq, Repr

namespace Report

/-- Terminal colours of a report. -/
inductive Colour where
  | red
  | yellow
  | darkGray
  deriving DecidableEq, Repr

/-- The foreground code of a colour. -/
def Colour.code : Colour → Nat
  | red => 31
  | yellow => 33
  | darkGray => 90

/-- Text in bold and in colour on a terminal. -/
def paint (c : Colour) (text : String) : String :=
  "\x1b[" ++ toString c.code ++ ";1m" ++ text ++ "\x1b[0m"

/-- The lines of a report.  Places inside the heap itself are shown as one
fixed mark. -/
def text (r : Report) : String :=
  "Error: " ++ paint .red r.error.message ++ "\n" ++
  "  detected at " ++ paint .darkGray "<heap>" ++ "\n" ++
  "  called from " ++ paint .yellow r.attribution.caller.text ++ "\n" ++
  "  running " ++ r.attribution.context.text ++ " on cpu " ++
    toString r.attribution.cpu ++ "\n"

/-- What the machine halts with: a heading, a blank line and the report. -/
def haltText (r : Report) : String :=
  paint .red "Kernel heap fatal error" ++ "\n\n" ++ r.text

end Report

/-! ## Broken preconditions -/

/-- A precondition of the heap's own code that does not hold. -/
inductive Panic where
  | addOverflow
  | subtractOverflow
  | multiplyOverflow
  /-- a header was read that reaches past the top -/
  | headerPastTop
  /-- a free last segment was large enough and still to be grown -/
  | growthNotNeeded
  /-- a used segment stands where only a free one may -/
  | segmentInUse
  /-- a payload that was to be looked at as one object is longer than an object may be -/
  | payloadTooLong
  | unalignedSize (size : Nat)
  | segmentTooSmall (size wanted : Nat)
  | topAboveMaximum
  | topBelowMinimum
  /-- a guard was dropped while the lock was not taken -/
  | lockNotHeld
  | notInstalled
  | installedTwice
  /-- the platform gave up waiting for the lock -/
  | blocked (yields : Nat)
  deriving DecidableEq, Repr

/-- The text of a broken precondition. -/
def Panic.message : Panic → String
  | addOverflow => "attempt to add with overflow"
  | subtractOverflow => "attempt to subtract with overflow"
  | multiplyOverflow => "attempt to multiply with overflow"
  | headerPastTop => "assertion failed: offset + HEADER_SIZE <= self.range.top()"
  | growthNotNeeded => "assertion failed: last.size < size"
  | segmentInUse => "assertion failed: !header.used"
  | payloadTooLong =>
    "unsafe precondition(s) violated: slice::from_raw_parts_mut requires the pointer to be " ++
      "aligned and non-null, and the total size of the slice not to exceed `isize::MAX`"
  | unalignedSize size => "segment size " ++ Hex.marked size ++ " is not aligned"
  | segmentTooSmall size wanted =>
    "segment of " ++ Hex.marked size ++ " bytes is too small for " ++ Hex.marked wanted
  | topAboveMaximum => "kernel heap top beyond the reserved maximum"
  | topBelowMinimum => "kernel heap top below the reserved minimum"
  | lockNotHeld => "HeapLockGuard dropped without holding the lock"
  | notInstalled => "kernel heap used before it was installed"
  | installedTwice => "kernel heap installed twice"
  | blocked yields => "blocked after " ++ toString yields ++ " yields"

/-! ## Refused requests -/

/-- Why a request was turned down before it reached the heap. -/
inductive Refusal where
  /-- the request is not well formed -/
  | badInput
  /-- a pointer name that nothing is bound to -/
  | unbound
  /-- raw access outside the mapped pages -/
  | outside
  /-- a size and alignment that no layout has -/
  | badLayout
  /-- no heap is installed yet -/
  | notInstalled
  /-- a window at address zero -/
  | nullBase
  deriving DecidableEq, Repr

/-- The name of a refusal. -/
def Refusal.name : Refusal → String
  | badInput => "BadInput"
  | unbound => "Unbound"
  | outside => "Outside"
  | badLayout => "BadLayout"
  | notInstalled => "NotInstalled"
  | nullBase => "NullBase"

/-! ## All of them -/

/-- Why an operation did not return. -/
inductive Fault where
  | refused (reason : Refusal)
  /-- a detected error on its way to the operation that reports it -/
  | detected (error : HeapError)
  /-- a detected error that was reported -/
  | fatal (report : Report)
  | panic (cause : Panic)
  deriving DecidableEq, Repr

/-- Whether the fault stops the caller, as a report or a broken precondition
does. -/
def Fault.halts : Fault → Bool
  | fatal _ => true
  | panic _ => true
  | refused _ => false
  | detected _ => false

end GuardedHeap
