/-
  Call.lean --- every call a client can make, as data.

  WHAT THIS FILE IS FOR.  A `Call` names an operation of the heap with its
  arguments; `Call.run` makes the call on behalf of a call site.  Runs of a heap
  are lists of calls, and code inside a platform call is a call too.
-/
import GuardedHeap.Layout

set_option autoImplicit false

namespace GuardedHeap

/-- A call to the heap. -/
inductive Call where
  | allocate (size : Nat)
  | free (address : Nat)
  | reallocate (address size : Nat)
  | usedBytes (details : Bool)
  | stats
  | audit
  | top
  | setTracing (on : Bool)
  | isTracing
  | lockHolder
  | describe
  | isInstalled
  | install
  | allocateLayout (layout : Layout)
  | freeLayout (address : Nat) (layout : Layout)
  | reallocateLayout (address : Nat) (layout : Layout) (newSize : Nat)
  deriving DecidableEq, Repr

namespace Call

/-- Makes a call from a site, with code that runs inside platform calls. -/
def run (callback : Callback) (site : CallSite) : Call → HeapM Reply
  | allocate size => return .pointer (← Machine.allocate callback size site)
  | free address => return .flag (← Machine.free callback address site)
  | reallocate address size => return .pointer (← Machine.reallocate callback address size site)
  | usedBytes details => return .count (← Machine.usedBytes details site)
  | stats => return .totals (← Machine.stats site)
  | audit => do
    Machine.audit site
    return .done
  | top => return .address (← Machine.topAddress site)
  | setTracing on => do
    Machine.setTracing on
    return .flag (← get).tracing
  | isTracing => return .flag (← get).tracing
  | lockHolder => return .holder (← get).lock.holder
  | describe => do
    let m ← get
    return .description m.arena.window m.context.id
  | isInstalled => return .flag (← get).installed
  | install => do
    Machine.install
    return .done
  | allocateLayout l => return .pointer (← Machine.allocateLayout callback l site)
  | freeLayout address l => do
    Machine.freeLayout callback address l site
    return .done
  | reallocateLayout address l newSize =>
    return .pointer (← Machine.reallocateLayout callback address l newSize site)

end Call

end GuardedHeap
