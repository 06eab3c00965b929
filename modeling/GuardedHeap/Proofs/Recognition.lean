/-
  Proofs/Recognition.lean --- whom the lock takes for its holder.

  WHAT THIS FILE IS FOR.  A context that holds the lock and asks for it again would wait
  for itself.  The lock is there to prevent that: it knows who holds it, and tells that
  context where it took the lock.  The holder is kept in one word, and one of the words
  stands for nobody; a context may have that word for its identity.

  WHAT IS PROVED.  At every point of a contest the owner of the live guard is recognized,
  by whoever asks for the holder and in every attempt of its own, and such an attempt
  changes nothing, unless the identity of the owner is the word for nobody.  An owner with
  that identity never is: it is made to wait for itself until it is stopped.
-/
import GuardedHeap.Proofs.Reentry

set_option autoImplicit false

namespace GuardedHeap

open Machine

namespace Contest

/-! ## The two ways a lock may treat its owner -/

/-- The lock knows the owner of a guard. -/
structure Recognizes (c : Contest) (g : Guard) : Prop where
  holder_eq : c.machine.lock.holder = some g.owner
  /-- whoever asks is told -/
  told : ∀ site, Call.lockHolder.run .none site c.machine =
    .ok (.holder (some g.owner)) c.machine
  /-- the owner is turned down before its first turn of waiting, and nothing changes -/
  turned_down : ∀ wait site spurious turns, takeLock wait g.owner site spurious turns c.machine =
    .error (.detected (.recursiveLock g.owner g.site)) c.machine
  /-- an operation that the owner begins does not get further either -/
  kept_out : c.machine.context.id = g.owner → c.machine.Open →
    ∀ (α : Type) (body : HeapM α) site, ∃ journal, locked site body c.machine =
      .error (.detected (.recursiveLock g.owner g.site)) { c.machine with journal := journal }

/-- The lock lets the owner of a guard wait for itself. -/
structure SelfBlocked (c : Contest) (g : Guard) : Prop where
  holder_eq : c.machine.lock.holder = none
  /-- an attempt of the owner is answered like that of anybody else -/
  waits : ∀ spurious site, tryLock spurious g.owner site c.machine = .ok false c.machine
  /-- it yields until it is stopped -/
  stopped : ∀ site spurious turns, 0 < turns →
    c.machine.patience.limit ≤ c.machine.patience.yields + turns →
    ∃ n, takeLock yieldNow g.owner site spurious turns c.machine =
      .error (.panic (.blocked (max (c.machine.patience.yields + 1) c.machine.patience.limit))) n ∧
        c.machine.Aside n

/-! ## What decides between them -/

section Deciding

variable {m : Machine} {g : Guard}

theorem holder_lock_of_ne (h : g.owner.value ≠ Lock.nobody) : g.lock.holder = some g.owner := by
  rw [holder_lock, if_neg h]

theorem tryLock_known (hm : m.lock = g.lock) (h : g.owner.value ≠ Lock.nobody)
    (spurious : Bool) (site : CallSite) :
    tryLock spurious g.owner site m = .error (.detected (.recursiveLock g.owner g.site)) m := by
  have hattempt : m.lock.attempt spurious g.owner site = .reentered g.owner g.site := by
    rw [hm, Lock.attempt, if_pos (holder_lock_of_ne h)]
    rfl
  unfold tryLock
  rw [run_bind_ok (run_get m), hattempt]
  rfl

/-- A holder that is known does not wait for a single turn. -/
theorem takeLock_known (hm : m.lock = g.lock) (h : g.owner.value ≠ Lock.nobody)
    (wait : HeapM Unit) (site : CallSite) (spurious : List Bool) (turns : Nat) :
    takeLock wait g.owner site spurious turns m =
      .error (.detected (.recursiveLock g.owner g.site)) m := by
  cases turns <;> exact run_bind_error (tryLock_known hm h _ site)

/-- So it does not enter a second time. -/
theorem exists_locked_known {α : Type} (hm : m.lock = g.lock)
    (h : g.owner.value ≠ Lock.nobody) (hid : m.context.id = g.owner) (ho : m.Open)
    (site : CallSite) (body : HeapM α) :
    ∃ journal, locked site body m =
      .error (.detected (.recursiveLock g.owner g.site)) { m with journal := journal } := by
  have henter : ∃ journal, enter site m =
      .error (.detected (.recursiveLock g.owner g.site)) { m with journal := journal } := by
    unfold enter
    rw [run_bind_ok (run_get m)]
    dsimp only
    rw [hid]
    by_cases hb : m.context.booted = true
    · rw [if_pos hb, if_neg (by simp [ho hb]), run_bind_ok (run_log _ m)]
      exact ⟨_, takeLock_known (by exact hm) h yieldNow site [] _⟩
    · rw [if_neg hb]
      exact ⟨m.journal, takeLock_known hm h yieldNow site [] _⟩
  obtain ⟨journal, hj⟩ := henter
  exact ⟨journal, run_bind_error hj⟩

end Deciding

/-- The word for nobody is the only identity that the lock does not recognize; a context
that has it waits for itself. -/
theorem Reachable.recognizes_or_blocks {m : Machine} (hm : m.lock = .unlocked) {c : Contest}
    (h : Reachable m c) {g : Guard} (hg : g ∈ c.guards) :
    (g.owner.value ≠ Lock.nobody → c.Recognizes g) ∧
      (g.owner.value = Lock.nobody → c.SelfBlocked g) := by
  obtain ⟨-, hlock⟩ := (h.sound hm).of_mem hg
  refine ⟨fun hknown => ?_, fun hnobody => ?_⟩
  · have hholder : c.machine.lock.holder = some g.owner := by
      rw [hlock]
      exact holder_lock_of_ne hknown
    refine ⟨hholder, fun site => ?_, takeLock_known hlock hknown, fun hid ho α body site =>
      exists_locked_known hlock hknown hid ho site body⟩
    show EStateM.Result.ok (Reply.holder c.machine.lock.holder) c.machine = _
    rw [hholder]
  · have hholder : g.lock.holder = none := by
      rw [holder_lock, if_pos hnobody]
    have hunknown : g.lock.holder ≠ some g.owner := by
      rw [hholder]
      exact Option.some_ne_none g.owner |>.symm
    refine ⟨by rw [hlock, hholder], fun spurious site => ?_, fun site spurious turns hpos hlimit =>
      exists_takeLock_blocked hlock hunknown site spurious turns hpos hlimit⟩
    rcases tryLock_locked hlock spurious g.owner site with hr | ⟨-, hr⟩
    · exact hr
    · -- it would have to be known for that
      unfold tryLock Lock.attempt at hr
      rw [run_bind_ok (run_get c.machine), hlock, if_neg hunknown] at hr
      cases hr

/-- The seventh context holds the lock of the small heap. -/
def seventhContest : Contest :=
  ⟨after (tryLock false ⟨7⟩ ⟨1⟩) World.smallWorld.machine, [⟨⟨7⟩, ⟨1⟩⟩], []⟩

theorem reachable_seventhContest : Reachable World.smallWorld.machine seventhContest := by
  have htake : tryLock false ⟨7⟩ ⟨1⟩ World.smallWorld.machine = .ok true seventhContest.machine :=
    run_of_returns (by decide +kernel)
  exact .single (.take htake)

/-- It is recognized there. -/
theorem recognizes_seventhContest :
    World.smallWorld.machine.lock = .unlocked ∧
      Reachable World.smallWorld.machine seventhContest ∧
      seventhContest.guards = [⟨⟨7⟩, ⟨1⟩⟩] ∧ seventhContest.Recognizes ⟨⟨7⟩, ⟨1⟩⟩ := by
  have hm : World.smallWorld.machine.lock = .unlocked := by decide +kernel
  exact ⟨hm, reachable_seventhContest, rfl,
    (reachable_seventhContest.recognizes_or_blocks hm List.mem_cons_self).1 (by decide)⟩

/-- A context with the identity that means nobody is not recognized, though it holds the
lock: no holder is known, and its next attempt has to wait. -/
theorem not_recognizes_smallContest :
    Reachable World.smallWorld.machine smallContest ∧
      smallContest.guards = [⟨⟨0xffffffffffffffff⟩, ⟨1⟩⟩] ∧
      smallContest.machine.lock.holder = none ∧
      returns (tryLock false ⟨0xffffffffffffffff⟩ ⟨2⟩) smallContest.machine false = true ∧
      ¬ smallContest.Recognizes ⟨⟨0xffffffffffffffff⟩, ⟨1⟩⟩ := by
  have hholder : smallContest.machine.lock.holder = none := by decide +kernel
  refine ⟨reachable_smallContest, rfl, hholder, by decide +kernel, fun h => ?_⟩
  have hknown := h.holder_eq
  rw [hholder] at hknown
  cases hknown

end Contest

end GuardedHeap
