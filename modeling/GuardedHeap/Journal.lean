/-
  Journal.lean --- what the heap tells its log.

  WHAT THIS FILE IS FOR.  One constructor per line the heap can log, with the
  values the line shows; the level and the wording are functions of it.  Lines
  are kept whatever the level and picked out when they are shown, so that what
  was logged can be reasoned about without any text.
-/
import GuardedHeap.Fault

set_option autoImplicit false

namespace GuardedHeap

/-- How important a line is. -/
inductive Level where
  | error
  | warn
  | info
  | debug
  | trace
  deriving DecidableEq, Repr

namespace Level

/-- The place of a level in the order from most to least important. -/
def rank : Level → Nat
  | error => 1
  | warn => 2
  | info => 3
  | debug => 4
  | trace => 5

/-- The name a line of this level starts with. -/
def name : Level → String
  | error => "ERROR"
  | warn => "WARN"
  | info => "INFO"
  | debug => "DEBUG"
  | trace => "TRACE"

end Level

/-- A line of the log. -/
inductive LogLine where
  /-- a heap takes over its window -/
  | started (start stop : Nat)
  /-- the search looks at a segment -/
  | visited (addr size : Nat) (used : Bool)
  | growTop (oldTop newTop : Nat)
  | mapPage (page frame : Nat)
  | unmapPage (page : Nat)
  /-- a byte of free memory without a known last owner is not zero -/
  | notZero (addr : Nat) (value : UInt8)
  | allocating (size : Nat) (caller : CallSite)
  | freeing (addr : Nat) (caller : CallSite)
  | resizing (addr size : Nat) (caller : CallSite)
  | locking (cpu : Nat)
  | unlocking (cpu : Nat)
  | usageHeading
  /-- a traced block in a usage listing -/
  | usageBlock (size : Nat) (owner : ContextId) (site : CallSite)
  | usageTotal (used blocks percent : Nat)
  /-- a detected error is about to halt the caller -/
  | failing (error : HeapError)
  deriving DecidableEq, Repr

namespace LogLine

/-- The level of a line. -/
def level : LogLine → Level
  | started .. => .debug
  | visited .. => .trace
  | growTop .. => .debug
  | mapPage .. => .debug
  | unmapPage .. => .debug
  | notZero .. => .warn
  | allocating .. => .debug
  | freeing .. => .debug
  | resizing .. => .debug
  | locking .. => .debug
  | unlocking .. => .debug
  | usageHeading => .info
  | usageBlock .. => .info
  | usageTotal .. => .info
  | failing .. => .error

/-- A number in decimal, filled with blanks on the left to eight characters. -/
def rightAligned (n : Nat) : String :=
  let text := toString n
  String.ofList (List.replicate (8 - text.length) ' ') ++ text

/-- The wording of a line. -/
def text : LogLine → String
  | started start stop =>
    "kernel heap starts at " ++ Hex.marked start ++ " and initially ends at " ++
      Hex.marked stop
  | visited addr size used =>
    "find_free: segment " ++ Hex.marked addr ++ " size " ++ Hex.marked size ++ " used " ++
      toString used
  | growTop oldTop newTop =>
    "kernel heap: grow top from " ++ Hex.marked oldTop ++ " to " ++ Hex.marked newTop
  | mapPage page frame =>
    "kernel heap: map page " ++ Hex.marked page ++ " -> frame " ++ Hex.marked frame
  | unmapPage page => "kernel heap: unmap page " ++ Hex.marked page
  | notZero addr value =>
    "kernel heap: free memory not zero at " ++ Hex.marked addr ++ " (value: " ++
      Hex.marked value.toNat ++ ")"
  | allocating size caller =>
    "allocate " ++ Hex.marked size ++ " bytes, called by " ++ caller.text
  | freeing addr caller => "free " ++ Hex.marked addr ++ ", called by " ++ caller.text
  | resizing addr size caller =>
    "reallocate " ++ Hex.marked addr ++ " to " ++ Hex.marked size ++
      " bytes, called by " ++ caller.text
  | locking cpu => "cpu " ++ toString cpu ++ " lock kernel heap"
  | unlocking cpu => "cpu " ++ toString cpu ++ " unlock kernel heap"
  | usageHeading => "kernel heap usage:"
  | usageBlock size owner site =>
    rightAligned size ++ " bytes (by " ++ owner.text ++ ") at " ++ site.text
  | usageTotal used blocks percent =>
    toString used ++ " bytes in " ++ toString blocks ++ " blocks are in use (" ++
      toString percent ++ "%)"
  | failing error => "kernel heap: " ++ error.message

/-- A line as it is shown, level first. -/
def shown (l : LogLine) : String := l.level.name ++ " " ++ l.text

end LogLine

end GuardedHeap
