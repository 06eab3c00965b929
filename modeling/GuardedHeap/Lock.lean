/-
  Lock.lean --- mutual exclusion with a known holder.

  WHAT THIS FILE IS FOR.  One lock guards the segments of a heap.  It remembers
  in one word which context holds it, and where that context took it.  An
  attempt exchanges one flag, and gets the lock if the exchange goes through.  If
  it does not, a context that is known as the holder is told so instead of
  waiting for itself, and any other context has to wait and try again.  The
  all-ones word means nobody, so a context with that identity is not known as a
  holder.

  The exchange is a weak one: it never goes through on a taken lock, and it may
  fail on a free one, for no reason that the heap could know.  Whether it does is
  a parameter of the attempt.

  WHAT IS PROVED.  Which of the three outcomes an attempt has.
-/
import GuardedHeap.Identity

set_option autoImplicit false

namespace GuardedHeap

/-- The state of the lock. -/
structure Lock where
  locked : Bool
  /-- the identity of the holder, all ones while there is none -/
  holderWord : UInt64
  takenAt : Option CallSite
  deriving DecidableEq, Repr

/-- What comes of an attempt to take the lock. -/
inductive Attempt where
  /-- the lock was free and is now held -/
  | acquired (lock : Lock)
  /-- the caller holds the lock already -/
  | reentered (holder : ContextId) (takenAt : CallSite)
  /-- somebody else holds the lock, or the exchange failed for no reason -/
  | contended
  deriving DecidableEq, Repr

namespace Lock

/-- The holder word while nobody holds the lock. -/
def nobody : UInt64 := 0xffffffffffffffff

/-- A lock nobody holds. -/
def unlocked : Lock := ⟨false, nobody, none⟩

/-- The context known to hold the lock. -/
def holder (l : Lock) : Option ContextId :=
  if l.holderWord = nobody then none else some ⟨l.holderWord⟩

/-- Context `me` tries to take the lock for a call from `site`, with an exchange that fails
on a free lock if `spurious` says so. -/
def attempt (l : Lock) (spurious : Bool) (me : ContextId) (site : CallSite) : Attempt :=
  if l.locked || spurious then
    if l.holder = some me then .reentered me (l.takenAt.getD site) else .contended
  else .acquired ⟨true, me.value, some site⟩

/-- An exchange that fails only where it has to takes a free lock. -/
theorem attempt_of_not_locked {l : Lock} (h : l.locked = false) (me : ContextId)
    (site : CallSite) : l.attempt false me site = .acquired ⟨true, me.value, some site⟩ := by
  rw [attempt, h]
  rfl

theorem attempt_ne_acquired {l : Lock} (h : l.locked = true) (spurious : Bool) (me : ContextId)
    (site : CallSite) (next : Lock) : l.attempt spurious me site ≠ .acquired next := by
  unfold attempt
  rw [h, Bool.true_or]
  simp only [if_true]
  split <;> simp

/-- Re-entry is reported exactly to the known holder, if the exchange does not go through. -/
theorem attempt_eq_reentered_iff {l : Lock} {spurious : Bool} {me : ContextId} {site : CallSite} :
    (∃ c s, l.attempt spurious me site = .reentered c s) ↔
      (l.locked = true ∨ spurious = true) ∧ l.holder = some me := by
  unfold attempt
  rw [← Bool.or_eq_true]
  constructor
  · rintro ⟨c, s, h⟩
    split at h
    · rename_i hl
      split at h
      · rename_i hh
        exact ⟨hl, hh⟩
      · cases h
    · cases h
  · rintro ⟨hl, hh⟩
    rw [if_pos hl, if_pos hh]
    exact ⟨_, _, rfl⟩

end Lock

end GuardedHeap
