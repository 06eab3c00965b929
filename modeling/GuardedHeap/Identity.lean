/-
  Identity.lean --- who calls the heap.

  WHAT THIS FILE IS FOR.  Blocks, the lock and every report name the place a
  call came from (`CallSite`) and the execution context that made it
  (`ContextId`).  Both are opaque handles: they are stored, compared and
  printed, and never computed with, so they are fixed-width words and no bound
  has to be carried beside them.
-/

set_option autoImplicit false

namespace GuardedHeap

/-- The place in client code a heap call was made from. -/
structure CallSite where
  number : UInt32
  deriving DecidableEq, Repr, Inhabited

/-- A call site is shown by its number. -/
def CallSite.text (s : CallSite) : String := "site#" ++ toString s.number.toNat

/-- A call site that may not have been recorded. -/
def CallSite.textOrUnknown : Option CallSite → String
  | some s => s.text
  | none => "<unknown>"

/-- An execution context; every 64-bit word is a possible identity. -/
structure ContextId where
  value : UInt64
  deriving DecidableEq, Repr, Inhabited

/-- A context is shown by its number. -/
def ContextId.text (c : ContextId) : String := "ctx#" ++ toString c.value.toNat

end GuardedHeap
