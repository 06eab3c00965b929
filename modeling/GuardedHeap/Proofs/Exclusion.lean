/-
  Proofs/Exclusion.lean --- one guard at a time.

  WHAT THIS FILE IS FOR.  Whoever has taken the lock holds a guard until it is dropped,
  and reaches the segments through it.  Contexts compete for the lock: while one waits in
  a turn of yielding, others attempt, wait themselves, drop guards and change segments.
  A `Contest` is a machine with the guards that are live.  It moves by what the lock does
  for a single attempt or a single drop, in any order and for contexts of any identity.
  Calls that wait are made of such steps, and so are calls inside the turns of others.
  The exchange of any attempt may fail for no reason.

  WHAT IS PROVED.  At every point at most one guard is live, and the lock is taken exactly
  when one is.  A guard is given out only while none is live; it shows all that was done
  through earlier ones.  Only the owner of the live guard is told that it holds the lock
  already.  A drop never fails, and leaves a lock that the next exchange takes, unless it
  fails for no reason, which costs its call one turn of waiting and nothing else.
-/
import GuardedHeap.Proofs.Client

set_option autoImplicit false

namespace GuardedHeap

open Machine

/-! ## Contests -/

/-- A guard of the lock: whose it is, and where it was taken. -/
structure Guard where
  owner : ContextId
  site : CallSite
  deriving DecidableEq

/-- A lock in use. -/
structure Contest where
  machine : Machine
  /-- the guards that are live, the latest first -/
  guards : List Guard
  /-- what was done through guards, the latest last -/
  updates : List (Arena → Arena)

/-- The lock while a guard is live. -/
def Guard.lock (g : Guard) : Lock := ⟨true, g.owner.value, some g.site⟩

namespace Contest

/-- What contexts may do. -/
inductive Step (c : Contest) : Contest → Prop
  /-- an attempt gets the lock, and with it a guard -/
  | take {spurious : Bool} {me : ContextId} {site : CallSite} {n : Machine} :
    tryLock spurious me site c.machine = .ok true n → Step c ⟨n, ⟨me, site⟩ :: c.guards, c.updates⟩
  /-- an attempt has to wait; others go on, and it may come back at any time -/
  | wait {spurious : Bool} {me : ContextId} {site : CallSite} {n : Machine} :
    tryLock spurious me site c.machine = .ok false n → Step c ⟨n, c.guards, c.updates⟩
  /-- an attempt is turned down -/
  | turnDown {spurious : Bool} {me : ContextId} {site : CallSite} {e : Fault} {n : Machine} :
    tryLock spurious me site c.machine = .error e n → Step c ⟨n, c.guards, c.updates⟩
  /-- a guard is dropped -/
  | drop {g : Guard} : g ∈ c.guards →
    Step c ⟨after releaseLock c.machine, c.guards.erase g, c.updates⟩
  /-- the segments are changed through a guard -/
  | update {g : Guard} (f : Arena → Arena) : g ∈ c.guards →
    Step c ⟨{ c.machine with arena := f c.machine.arena }, c.guards, c.updates ++ [f]⟩
  /-- something happens that has to do with neither the lock nor the segments -/
  | elsewhere {n : Machine} : n.lock = c.machine.lock → n.arena = c.machine.arena →
    Step c ⟨n, c.guards, c.updates⟩

/-- A sequence of steps. -/
abbrev Steps : Contest → Contest → Prop := Relation.ReflTransGen Step

/-- What can come of a machine. -/
def Reachable (m : Machine) (c : Contest) : Prop := Steps ⟨m, [], []⟩ c

theorem Reachable.steps {m : Machine} {c d : Contest} (h : Reachable m c) (hs : Steps c d) :
    Reachable m d :=
  Relation.ReflTransGen.trans h hs

/-- The segments after everything that was done through guards. -/
def updated (start : Arena) (c : Contest) : Arena := c.updates.foldl (fun a f => f a) start

/-- Everything a program does is made of steps. -/
def Plays (m : Machine) {α : Type} (x : HeapM α) : Prop :=
  ∀ c, Reachable m c → ∃ d, Steps c d ∧ d.machine = after x c.machine

/-! ## What the lock shows -/

/-- The lock shows the guard that is live, and the segments what was done through
guards. -/
structure Sound (start : Arena) (c : Contest) : Prop where
  lock : c.guards = [] ∧ c.machine.lock = .unlocked ∨
    ∃ g, c.guards = [g] ∧ c.machine.lock = g.lock
  arena : c.machine.arena = c.updated start

theorem Sound.of_mem {start : Arena} {c : Contest} (h : c.Sound start) {g : Guard}
    (hg : g ∈ c.guards) : c.guards = [g] ∧ c.machine.lock = g.lock := by
  rcases h.lock with ⟨hnil, -⟩ | ⟨g', hone, hlock⟩
  · rw [hnil] at hg
    cases hg
  · rw [hone, List.mem_singleton] at hg
    exact ⟨hg ▸ hone, hg ▸ hlock⟩

/-- The holder is known by its identity, unless that is the word for nobody. -/
theorem holder_lock (g : Guard) :
    g.lock.holder = if g.owner.value = Lock.nobody then none else some g.owner := rfl

/-- A free lock is left alone by an exchange that fails for no reason. -/
theorem tryLock_spurious {m : Machine} (hm : m.lock = .unlocked) (me : ContextId)
    (site : CallSite) : tryLock true me site m = .ok false m := by
  have hattempt : m.lock.attempt true me site = .contended := by
    rw [hm]
    rfl
  unfold tryLock
  rw [run_bind_ok (run_get m), hattempt]
  rfl

/-- On a lock that is taken, the owner is turned down if it is known, and everybody else
waits. -/
theorem tryLock_locked {m : Machine} {g : Guard} (hm : m.lock = g.lock) (spurious : Bool)
    (me : ContextId) (site : CallSite) :
    tryLock spurious me site m = .ok false m ∨
      g.owner = me ∧
        tryLock spurious me site m = .error (.detected (.recursiveLock me g.site)) m := by
  have hattempt : m.lock.attempt spurious me site =
      if g.lock.holder = some me then .reentered me g.site else .contended := by
    rw [hm]
    rfl
  unfold tryLock
  rw [run_bind_ok (run_get m), hattempt]
  by_cases hh : g.lock.holder = some me
  · rw [if_pos hh]
    refine .inr ⟨?_, rfl⟩
    rw [holder_lock] at hh
    split at hh
    · cases hh
    · exact Option.some.inj hh
  · rw [if_neg hh]
    exact .inl rfl

theorem releaseLock_locked {m : Machine} {g : Guard} (hm : m.lock = g.lock) :
    releaseLock m = .ok () { m with lock := .unlocked } := by
  have hlocked : m.lock.locked = true := by
    rw [hm]
    rfl
  exact run_releaseLock hlocked

/-- What comes of a single attempt. -/
inductive Tried (c : Contest) (spurious : Bool) (me : ContextId) (site : CallSite) :
    EStateM.Result Fault Machine Bool → Prop
  | taken : c.guards = [] → spurious = false →
    Tried c spurious me site (.ok true { c.machine with lock := (Guard.mk me site).lock })
  | waits : c.guards ≠ [] ∨ spurious = true → Tried c spurious me site (.ok false c.machine)
  | turnedDown {g : Guard} : c.guards = [g] → g.owner = me →
    Tried c spurious me site (.error (.detected (.recursiveLock me g.site)) c.machine)

theorem Sound.tried {start : Arena} {c : Contest} (h : c.Sound start) (spurious : Bool)
    (me : ContextId) (site : CallSite) :
    Tried c spurious me site (tryLock spurious me site c.machine) := by
  rcases h.lock with ⟨hnil, hfree⟩ | ⟨g, hone, htaken⟩
  · cases spurious with
    | false =>
      rw [run_tryLock hfree]
      exact .taken hnil rfl
    | true =>
      rw [tryLock_spurious hfree]
      exact .waits (.inr rfl)
  · rcases tryLock_locked htaken spurious me site with hr | ⟨howner, hr⟩
    · rw [hr]
      exact .waits (.inl (by simp [hone]))
    · rw [hr]
      exact .turnedDown hone howner

/-! ## Steps keep it so -/

theorem Sound.step {start : Arena} {c d : Contest} (h : c.Sound start) (hs : Step c d) :
    d.Sound start := by
  cases hs with
  | @take spurious me site n hn =>
    have ht := h.tried spurious me site
    rw [hn] at ht
    cases ht with
    | taken hnil _ => exact ⟨.inr ⟨⟨me, site⟩, by rw [hnil], rfl⟩, h.arena⟩
  | @wait spurious me site n hn =>
    have ht := h.tried spurious me site
    rw [hn] at ht
    cases ht with
    | waits _ => exact h
  | @turnDown spurious me site e n hn =>
    have ht := h.tried spurious me site
    rw [hn] at ht
    cases ht with
    | turnedDown _ _ => exact h
  | @drop g hg =>
    obtain ⟨hone, hlock⟩ := h.of_mem hg
    have hafter : after releaseLock c.machine = { c.machine with lock := .unlocked } := by
      unfold after
      rw [releaseLock_locked hlock]
    rw [hafter, hone, List.erase_cons_head]
    exact ⟨.inl ⟨rfl, rfl⟩, h.arena⟩
  | update f hg =>
    refine ⟨h.lock, ?_⟩
    show f c.machine.arena = (c.updates ++ [f]).foldl (fun a f => f a) start
    rw [List.foldl_concat, h.arena]
    rfl
  | elsewhere hlock harena =>
    refine ⟨?_, ?_⟩
    · rw [hlock]
      exact h.lock
    · rw [harena]
      exact h.arena

theorem Reachable.sound {m : Machine} (hm : m.lock = .unlocked) {c : Contest}
    (h : Reachable m c) : c.Sound m.arena := by
  induction h with
  | refl => exact ⟨.inl ⟨rfl, hm⟩, rfl⟩
  | tail _ hs ih => exact ih.step hs

/-! ## Calls are made of steps -/

section Calls

variable {m : Machine} {c : Contest}

/-- What is made of steps may follow each other. -/
theorem Plays.bind {α β : Type} {x : HeapM α} {f : α → HeapM β} (hx : Plays m x)
    (hf : ∀ r, Plays m (f r)) : Plays m (x >>= f) := by
  intro c hc
  obtain ⟨d, hd, hmachine⟩ := hx c hc
  unfold after at hmachine ⊢
  cases hr : x c.machine with
  | ok r n =>
    rw [hr] at hmachine
    obtain ⟨e, he, hlast⟩ := hf r d (hc.steps hd)
    rw [run_bind_ok hr, ← show d.machine = n from hmachine]
    exact ⟨e, hd.trans he, hlast⟩
  | error e n =>
    rw [hr] at hmachine
    rw [run_bind_error hr]
    exact ⟨d, hd, hmachine⟩

/-- How a call for the lock ends that began in a contest: it got a guard when none was
live, it was told that it has the live one, or it was stopped while it was waiting. -/
def CallEnds (start : Arena) (c : Contest) (wait : HeapM Unit) (me : ContextId) (site : CallSite) :
    EStateM.Result Fault Machine Unit → Prop :=
  Ends
    (fun _ n => ∃ d, Steps c d ∧ d.guards = [] ∧ n.arena = d.updated start ∧
      Step d ⟨n, [⟨me, site⟩], d.updates⟩)
    (fun e n => ∃ d, Steps c d ∧ d.machine = n ∧
      ((∃ g ∈ d.guards, g.owner = me ∧ e = .detected (.recursiveLock me g.site)) ∨
        e = .panic (.blocked n.patience.yields) ∨ ∃ k, wait k = .error e n))

/-- A call whose turns of waiting are made of steps is made of steps itself. -/
theorem callEnds_takeLock (hm : m.lock = .unlocked) {wait : HeapM Unit} (hw : Plays m wait)
    (me : ContextId) (site : CallSite) (spurious : List Bool) (turns : Nat) (hc : Reachable m c) :
    CallEnds m.arena c wait me site (takeLock wait me site spurious turns c.machine) := by
  induction turns generalizing c spurious with
  | zero =>
    have hs := hc.sound hm
    have ht := hs.tried (spurious.headD false) me site
    unfold takeLock
    cases hr : tryLock (spurious.headD false) me site c.machine with
    | ok got n =>
      rw [hr] at ht
      rw [run_bind_ok hr]
      cases ht with
      | taken hnil _ => exact ⟨c, .refl, hnil, hs.arena, hnil ▸ .take hr⟩
      | waits _ => exact ⟨c, .refl, rfl, .inr (.inl rfl)⟩
    | error e n =>
      rw [hr] at ht
      rw [run_bind_error hr]
      cases ht with
      | @turnedDown g hone howner =>
        exact ⟨c, .refl, rfl, .inl ⟨g, hone ▸ List.mem_cons_self, howner, rfl⟩⟩
  | succ turns ih =>
    have hs := hc.sound hm
    have ht := hs.tried (spurious.headD false) me site
    unfold takeLock
    cases hr : tryLock (spurious.headD false) me site c.machine with
    | error e n =>
      rw [hr] at ht
      rw [run_bind_error hr]
      cases ht with
      | @turnedDown g hone howner =>
        exact ⟨c, .refl, rfl, .inl ⟨g, hone ▸ List.mem_cons_self, howner, rfl⟩⟩
    | ok got n =>
      rw [hr] at ht
      rw [run_bind_ok hr]
      cases ht with
      | taken hnil _ => exact ⟨c, .refl, hnil, hs.arena, hnil ▸ .take hr⟩
      | waits _ =>
        -- a turn of waiting leads to another point of the contest, and the call goes on there
        obtain ⟨d, hd, hmachine⟩ := hw c hc
        unfold after at hmachine
        show CallEnds m.arena c wait me site ((wait >>= fun _ => _) c.machine)
        cases hturn : wait c.machine with
        | error e n =>
          rw [hturn] at hmachine
          rw [run_bind_error hturn]
          exact ⟨d, hd, hmachine, .inr (.inr ⟨c.machine, hturn⟩)⟩
        | ok r n =>
          rw [hturn] at hmachine
          rw [run_bind_ok hturn, ← show d.machine = n from hmachine]
          refine (ih spurious.tail (hc.steps hd)).mono ?_ ?_
          · rintro _ k ⟨e, he, hlast⟩
            exact ⟨e, hd.trans he, hlast⟩
          · rintro _ k ⟨e, he, hlast⟩
            exact ⟨e, hd.trans he, hlast⟩

/-- So calls may run in the turns of other calls. -/
theorem Plays.takeLock (hm : m.lock = .unlocked) {wait : HeapM Unit} (hw : Plays m wait)
    (me : ContextId) (site : CallSite) (spurious : List Bool) (turns : Nat) :
    Plays m (Machine.takeLock wait me site spurious turns) := by
  intro c hc
  have hends := callEnds_takeLock hm hw me site spurious turns hc
  unfold after
  cases hr : Machine.takeLock wait me site spurious turns c.machine with
  | ok r n =>
    rw [hr] at hends
    obtain ⟨d, hd, -, -, hlast⟩ := hends
    exact ⟨_, hd.tail hlast, rfl⟩
  | error e n =>
    rw [hr] at hends
    obtain ⟨d, hd, hmachine, -⟩ := hends
    exact ⟨d, hd, hmachine⟩

end Calls

/-! ## Mutual exclusion -/

/-- A context with the identity that means nobody holds the lock of the small heap. -/
def smallContest : Contest :=
  ⟨after (tryLock false ⟨0xffffffffffffffff⟩ ⟨1⟩) World.smallWorld.machine,
    [⟨⟨0xffffffffffffffff⟩, ⟨1⟩⟩], []⟩

theorem reachable_smallContest : Reachable World.smallWorld.machine smallContest := by
  have htake : tryLock false ⟨0xffffffffffffffff⟩ ⟨1⟩ World.smallWorld.machine =
      .ok true smallContest.machine := run_of_returns (by decide +kernel)
  exact .single (.take htake)

end Contest

end GuardedHeap
