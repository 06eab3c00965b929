/-
  Proofs/Reentry.lean --- calls from inside platform calls come to nothing.

  WHAT THIS FILE IS FOR.  The platform is free to call the heap again while the heap waits
  for a frame or a mapping: from an interrupt, from another context, or because it wants
  memory itself.  Such a call (`Intrusion`) finds the lock taken.  Its failure is caught,
  and the operation that was interrupted goes on.

  WHAT IS PROVED.  No intrusion returns; how it fails is known beforehand, from who makes
  it and who holds the lock.  The operation it interrupts ends as it would have ended
  alone, with the same segments, the same mapping and the same platform calls.  However
  an operation ends, also when a fault comes out of a platform call, the lock is free.
-/
import GuardedHeap.Proofs.SideBySide

set_option autoImplicit false

namespace GuardedHeap

open Machine

/-! ## Calls from inside -/

/-- The calls that take the lock. -/
def Call.TakesLock : Call → Prop
  | .allocate _ => True
  | .free address => address ≠ 0
  | .reallocate address size => ¬ (address = 0 ∧ size = 0)
  | .usedBytes _ => True
  | .stats => True
  | .audit => True
  | .top => True
  | _ => False

/-- The size a call asks for. -/
def Call.requested : Call → Nat
  | .allocate size => size
  | .reallocate _ size => size
  | _ => 0

/-- A call that takes the lock, made from inside a platform call. -/
structure Intrusion where
  call : Call
  site : CallSite
  /-- who makes it -/
  context : Context
  /-- how often the platform lets it yield -/
  yields : Nat
  /-- what would run inside its own platform calls -/
  inner : Callback
  takes : call.TakesLock

/-- Makes the call, records how it ended, and lets the interrupted context go on. -/
def Intrusion.run (i : Intrusion) : HeapM Unit := do
  let before := (← get).context
  modify fun m => { m with context := i.context, patience := ⟨0, i.yields⟩ }
  let outcome : Except Fault Reply ←
    tryCatch (Except.ok <$> i.call.run i.inner i.site) fun e => pure (.error e)
  record (.nested outcome)
  modify fun m => { m with context := before }

/-- The platform makes the calls it chooses, and then may fail itself. -/
def intruding (choose : PlatformCall → Machine → List Intrusion)
    (escape : PlatformCall → Machine → Option Fault) : Callback := fun on => do
  (choose on (← get)).forM Intrusion.run
  if let some e := escape on (← get) then throw e

/-- The platform does not fail. -/
def noEscape : PlatformCall → Machine → Option Fault := fun _ _ => none

/-! ## How they fail -/

/-- What a context is told that asks for a lock that is taken. -/
def Guard.refusal (g : Guard) (c : Context) (yields : Nat) : Fault :=
  if c.booted = true ∧ c.interrupts = false then .detected (.interruptsDisabled c.cpu)
  else if g.lock.holder = some c.id then .detected (.recursiveLock c.id g.site)
  else .panic (.blocked (max 1 yields))

/-- What a call fails with that asks for a lock that is taken. -/
def Call.failure (c : Call) (g : Guard) (context : Context) (yields : Nat) : Fault :=
  if Word.maxRequest < c.requested then .detected (.sizeOverflow c.requested)
  else g.refusal context yields

/-- What comes of an intrusion. -/
def Intrusion.rebuff (i : Intrusion) (g : Guard) : Fault :=
  (i.call.failure g i.context i.yields).reported i.site i.context

namespace Machine

/-- What an operation did at the platform itself. -/
def ownEvents (m : Machine) : List Event := m.events.toList.filter Event.own

/-- How the operations ended that ran inside platform calls. -/
def outcomes (m : Machine) : List (Except Fault Reply) :=
  m.events.toList.filterMap fun
    | .nested outcome => some outcome
    | _ => none

/-- A machine with other things logged, and other turns of waiting recorded. -/
structure Aside (m n : Machine) : Prop where
  eq : n = { m with patience := n.patience, journal := n.journal, events := n.events }
  own : n.ownEvents = m.ownEvents
  outcomes : n.outcomes = m.outcomes

namespace Aside

variable {m n k : Machine}

theorem refl (m : Machine) : m.Aside m := ⟨rfl, rfl, rfl⟩

theorem trans (h : m.Aside n) (h' : n.Aside k) : m.Aside k where
  eq := by
    rw [h'.eq, h.eq]
  own := h'.own.trans h.own
  outcomes := h'.outcomes.trans h.outcomes

theorem log (line : LogLine) (h : m.Aside n) :
    m.Aside { n with journal := n.journal.push line } :=
  h.trans ⟨rfl, rfl, rfl⟩

theorem yielded (m : Machine) : m.Aside m.yielded where
  eq := rfl
  own := by
    unfold ownEvents Machine.yielded
    rw [Array.toList_push, List.filter_append]
    exact List.append_nil _
  outcomes := by
    unfold Machine.outcomes Machine.yielded
    rw [Array.toList_push, List.filterMap_append]
    exact List.append_nil _

theorem lock_eq (h : m.Aside n) : n.lock = m.lock := by
  rw [h.eq]

theorem context_eq (h : m.Aside n) : n.context = m.context := by
  rw [h.eq]

end Aside

section Failing

variable {α : Type} {m : Machine} {g : Guard}

/-- A context that is not known as the holder yields until the platform stops it. -/
theorem exists_takeLock_blocked (hl : m.lock = g.lock) {me : ContextId}
    (hme : g.lock.holder ≠ some me) (site : CallSite) (spurious : List Bool) (turns : Nat)
    (hturns : 0 < turns) (hlimit : m.patience.limit ≤ m.patience.yields + turns) :
    ∃ n, takeLock yieldNow me site spurious turns m =
      .error (.panic (.blocked (max (m.patience.yields + 1) m.patience.limit))) n ∧
      m.Aside n := by
  induction turns generalizing m spurious with
  | zero => exact absurd hturns (Nat.lt_irrefl 0)
  | succ turns ih =>
    have htry : tryLock (spurious.headD false) me site m = .ok false m := by
      unfold tryLock Lock.attempt
      rw [run_bind_ok (run_get m), hl, if_neg hme]
      rfl
    have hyield := run_yieldNow m
    unfold takeLock
    rw [run_bind_ok htry]
    by_cases hend : m.patience.limit ≤ m.patience.yields + 1
    · rw [if_pos hend] at hyield
      refine ⟨_, ?_, Aside.yielded m⟩
      rw [Nat.max_eq_left hend]
      exact run_bind_error hyield
    · rw [if_neg hend] at hyield
      have hlater : m.patience.limit ≤ m.patience.yields + 1 + turns := by omega
      obtain ⟨k, hk, haside⟩ := ih (m := m.yielded) hl spurious.tail (by omega) hlater
      refine ⟨k, ?_, (Aside.yielded m).trans haside⟩
      have hmax : max (m.patience.yields + 1 + 1) m.patience.limit =
          max (m.patience.yields + 1) m.patience.limit := by omega
      rw [← hmax]
      exact (run_bind_ok hyield).trans hk

/-- Nobody enters while the lock is taken. -/
theorem exists_enter_refused (hl : m.lock = g.lock) (hy : m.patience.yields = 0)
    (site : CallSite) :
    ∃ n, enter site m = .error (g.refusal m.context m.patience.limit) n ∧ m.Aside n := by
  have hwait : ∀ n, m.Aside n → n.patience = m.patience → n.context.booted = false ∨
      n.context.interrupts = true →
      ∃ k, takeLock yieldNow n.context.id site [] (n.patience.limit + 1) n =
        .error (g.refusal m.context m.patience.limit) k ∧ m.Aside k := by
    intro n haside hpatience hopen
    have hln := haside.lock_eq.trans hl
    have hc := haside.context_eq
    unfold Guard.refusal
    rw [if_neg (by rw [← hc]; rintro ⟨hb, hi⟩; rcases hopen with h | h <;> simp_all)]
    by_cases hme : g.lock.holder = some m.context.id
    · rw [if_pos hme]
      refine ⟨n, ?_, haside⟩
      have htry : tryLock false n.context.id site n =
          .error (.detected (.recursiveLock m.context.id g.site)) n := by
        unfold tryLock Lock.attempt
        rw [run_bind_ok (run_get n), hln, hc, if_pos hme]
        rfl
      unfold takeLock
      exact run_bind_error htry
    · rw [if_neg hme]
      have hother : g.lock.holder ≠ some n.context.id := by
        rw [hc]
        exact hme
      obtain ⟨k, hk, haside'⟩ := exists_takeLock_blocked hln hother site [] (n.patience.limit + 1)
        (Nat.succ_pos _) (by omega)
      rw [hpatience, hy] at hk
      rw [hpatience]
      exact ⟨k, hk, haside.trans haside'⟩
  unfold enter
  rw [run_bind_ok (run_get m)]
  dsimp only
  by_cases hb : m.context.booted = true
  · rw [if_pos hb]
    by_cases hi : m.context.interrupts = true
    · rw [if_neg (by simp [hi]), run_bind_ok (run_log _ m)]
      exact hwait _ (Aside.refl m |>.log _) rfl (.inr hi)
    · rw [if_pos (by simp [hi])]
      refine ⟨m, ?_, Aside.refl m⟩
      unfold Guard.refusal
      rw [if_pos ⟨hb, by simpa using hi⟩]
      rfl
  · rw [if_neg hb]
    exact hwait m (Aside.refl m) rfl (.inl (by simpa using hb))

theorem exists_locked_refused (hl : m.lock = g.lock) (hy : m.patience.yields = 0)
    (site : CallSite) (body : HeapM α) :
    ∃ n, locked site body m = .error (g.refusal m.context m.patience.limit) n ∧ m.Aside n := by
  obtain ⟨n, hn, haside⟩ := exists_enter_refused hl hy site
  exact ⟨n, run_bind_error hn, haside⟩

theorem exists_reporting_failed {body : HeapM α} {e : Fault}
    (h : ∃ n, body m = .error e n ∧ m.Aside n) (site : CallSite) :
    ∃ n, reporting site body m = .error (e.reported site m.context) n ∧ m.Aside n := by
  obtain ⟨n, hn, haside⟩ := h
  rw [run_reporting_error hn site, ← haside.context_eq]
  cases e with
  | detected error => exact ⟨_, rfl, haside.log (.failing error)⟩
  | _ => exact ⟨n, rfl, haside⟩

theorem exists_logged_refused (hl : m.lock = g.lock) (hy : m.patience.yields = 0)
    (line : LogLine) (site : CallSite) (body : HeapM α) :
    ∃ n, (do log line; locked site body) m =
      .error (g.refusal m.context m.patience.limit) n ∧ m.Aside n := by
  obtain ⟨n, hn, haside⟩ := exists_locked_refused
    (m := { m with journal := m.journal.push line }) hl hy site body
  exact ⟨n, hn, ((Aside.refl m).log line).trans haside⟩

theorem exists_bind_failed {β : Type} {x : HeapM α} {f : α → HeapM β} {e : Fault}
    (h : ∃ n, x m = .error e n ∧ m.Aside n) : ∃ n, (x >>= f) m = .error e n ∧ m.Aside n := by
  obtain ⟨n, hn, haside⟩ := h
  exact ⟨n, run_bind_error hn, haside⟩

end Failing

end Machine

/-! ## Intrusions fail -/

section Intrusions

variable {m : Machine} {g : Guard}

theorem Call.failure_of_lt {c : Call} (h : Word.maxRequest < c.requested) (g : Guard)
    (context : Context) (yields : Nat) :
    c.failure g context yields = .detected (.sizeOverflow c.requested) := if_pos h

theorem Call.failure_of_le {c : Call} (h : c.requested ≤ Word.maxRequest) (g : Guard)
    (context : Context) (yields : Nat) : c.failure g context yields = g.refusal context yields :=
  if_neg (Nat.not_lt.mpr h)

theorem exists_tryAllocate_refused (hl : m.lock = g.lock) (hy : m.patience.yields = 0)
    (cb : Callback) (size : Nat) (site : CallSite) :
    ∃ n, tryAllocate cb size site m =
      .error ((Call.allocate size).failure g m.context m.patience.limit) n ∧ m.Aside n := by
  by_cases hsize : Word.maxRequest < size
  · rw [Call.failure_of_lt (c := .allocate size) hsize]
    refine ⟨m, ?_, .refl m⟩
    unfold tryAllocate
    rw [if_pos hsize]
    rfl
  · have hle := Nat.le_of_not_lt hsize
    rw [Call.failure_of_le (c := .allocate size) hle, tryAllocate_eq hle]
    exact exists_logged_refused hl hy _ site _

theorem exists_tryFree_refused (hl : m.lock = g.lock) (hy : m.patience.yields = 0)
    (cb : Callback) (address : Nat) (site : CallSite) :
    ∃ n, tryFree cb address site m = .error (g.refusal m.context m.patience.limit) n ∧
      m.Aside n :=
  exists_logged_refused hl hy _ site _

theorem exists_tryReallocate_refused (hl : m.lock = g.lock) (hy : m.patience.yields = 0)
    (cb : Callback) {address size : Nat} (hnull : ¬ (address = 0 ∧ size = 0)) (site : CallSite) :
    ∃ n, tryReallocate cb address size site m =
      .error ((Call.reallocate address size).failure g m.context m.patience.limit) n ∧
      m.Aside n := by
  by_cases hsize : Word.maxRequest < size
  · rw [Call.failure_of_lt (c := .reallocate address size) hsize]
    refine ⟨m, ?_, .refl m⟩
    unfold tryReallocate
    rw [if_pos hsize]
    rfl
  · have hle := Nat.le_of_not_lt hsize
    rw [Call.failure_of_le (c := .reallocate address size) hle]
    unfold tryReallocate
    rw [if_neg hsize]
    dsimp only
    by_cases hz : size = 0
    · have haddress : address ≠ 0 := fun h => hnull ⟨h, hz⟩
      rw [if_pos hz, if_pos haddress]
      exact exists_bind_failed (exists_tryFree_refused hl hy cb address site)
    · rw [if_neg hz]
      by_cases haddress : address = 0
      · rw [if_pos haddress, tryAllocate_eq hle]
        exact exists_logged_refused hl hy _ site _
      · rw [if_neg haddress, tryResize_eq hle]
        exact exists_logged_refused hl hy _ site _

/-- A call that takes the lock fails while it is taken. -/
theorem Call.exists_failed {c : Call} (hc : c.TakesLock) (hl : m.lock = g.lock)
    (hy : m.patience.yields = 0) (cb : Callback) (site : CallSite) :
    ∃ n, c.run cb site m =
      .error ((c.failure g m.context m.patience.limit).reported site m.context) n ∧
      m.Aside n := by
  have hstats : ∃ n, Machine.stats site m =
      .error ((g.refusal m.context m.patience.limit).reported site m.context) n ∧ m.Aside n :=
    exists_reporting_failed (exists_locked_refused hl hy site _) site
  cases c with
  | allocate size =>
    exact exists_bind_failed
      (exists_reporting_failed (exists_tryAllocate_refused hl hy cb size site) site)
  | free address =>
    refine exists_bind_failed ?_
    unfold Machine.free
    rw [if_neg hc]
    exact exists_bind_failed
      (exists_reporting_failed (exists_tryFree_refused hl hy cb address site) site)
  | reallocate address size =>
    exact exists_bind_failed
      (exists_reporting_failed (exists_tryReallocate_refused hl hy cb hc site) site)
  | usedBytes details =>
    exact exists_bind_failed (exists_reporting_failed
      (exists_bind_failed (exists_locked_refused hl hy site _)) site)
  | stats => exact exists_bind_failed hstats
  | audit => exact exists_bind_failed (exists_bind_failed hstats)
  | top => exact exists_bind_failed (exists_bind_failed hstats)
  | _ => exact hc.elim

/-- So an intrusion leaves its failure in the record, and nothing else. -/
theorem Intrusion.exists_run (i : Intrusion) (hl : m.lock = g.lock) :
    ∃ n, i.run m = .ok () n ∧
      n = { m with patience := n.patience, journal := n.journal, events := n.events } ∧
      n.ownEvents = m.ownEvents ∧ n.outcomes = m.outcomes ++ [.error (i.rebuff g)] := by
  obtain ⟨k, hk, haside⟩ := Call.exists_failed (g := g)
    (m := { m with context := i.context, patience := ⟨0, i.yields⟩ }) i.takes hl rfl i.inner i.site
  have hcatch : (tryCatch (Except.ok <$> i.call.run i.inner i.site)
      fun e => pure (.error e) : HeapM (Except Fault Reply))
      { m with context := i.context, patience := ⟨0, i.yields⟩ } =
      .ok (.error (i.rebuff g)) k := by
    have hmap : (Except.ok <$> i.call.run i.inner i.site : HeapM (Except Fault Reply))
        { m with context := i.context, patience := ⟨0, i.yields⟩ } =
        .error (i.rebuff g) k := by
      show EStateM.map _ _ _ = _
      unfold EStateM.map
      rw [hk]
      rfl
    rw [run_tryCatch_error hmap]
    rfl
  refine ⟨{ k with context := m.context, events := k.events.push (.nested (.error (i.rebuff g))) },
    ?_, ?_, ?_, ?_⟩
  · unfold Intrusion.run
    rw [run_bind_ok (run_get m)]
    exact run_bind_ok hcatch
  · rw [haside.eq]
  · refine Eq.trans ?_ haside.own
    unfold ownEvents
    rw [Array.toList_push, List.filter_append]
    exact List.append_nil _
  · have houtcomes := haside.outcomes
    unfold outcomes at houtcomes ⊢
    rw [Array.toList_push, List.filterMap_append, houtcomes]
    rfl

end Intrusions

/-! ## The interrupted operation -/

namespace Machine

/-- A machine beside one that was not intruded upon.  Apart from what was logged and how
often somebody waited they are the same; so are the platform calls of the operation.  The
intrusions are recorded with their failures. -/
structure Echo (g : Guard) (before : List (Except Fault Reply)) (m n : Machine) : Prop where
  eq : m = { n with patience := m.patience, journal := m.journal, events := m.events }
  own : m.ownEvents = n.ownEvents
  intrusions : ∃ made : List Intrusion,
    m.outcomes = before ++ made.map fun i => .error (i.rebuff g)
  alone : n.outcomes = before

/-- The same with the state of the lock, in the hands of the owner of a guard. -/
structure EchoAt (l : Lock) (g : Guard) (before : List (Except Fault Reply)) (m n : Machine) :
    Prop where
  echo : Echo g before m n
  lock_eq : m.lock = l
  owner : m.context.id = g.owner

section Echoes

variable {g : Guard} {l : Lock} {before : List (Except Fault Reply)} {m n : Machine}

theorem Echo.same (h : Echo g before m n) : Same m n where
  arena := by rw [h.eq]
  platform := by rw [h.eq]
  context := by rw [h.eq]
  tracing := by rw [h.eq]
  installed := by rw [h.eq]

theorem EchoAt.lock_eq' (h : EchoAt l g before m n) : n.lock = l := by
  rw [← h.lock_eq, h.echo.eq]

theorem ownEvents_push (m : Machine) {e : Event} (he : e.own = true) :
    ownEvents { m with events := m.events.push e } = m.ownEvents ++ [e] := by
  unfold ownEvents
  rw [Array.toList_push, List.filter_append, List.filter_cons_of_pos he]
  rfl

theorem outcomes_push (m : Machine) {e : Event} (he : e.own = true) :
    outcomes { m with events := m.events.push e } = m.outcomes := by
  unfold outcomes
  rw [Array.toList_push, List.filterMap_append]
  cases e with
  | yield => cases he
  | nested outcome => cases he
  | _ => exact List.append_nil _

theorem tandem_echoAt : Tandem (EchoAt l g before) where
  same h := h.echo.same
  arena a h :=
    ⟨⟨congrArg (fun k : Machine => { k with arena := a }) h.echo.eq, h.echo.own,
      h.echo.intrusions, h.echo.alone⟩, h.lock_eq, h.owner⟩
  platform p h :=
    ⟨⟨congrArg (fun k : Machine => { k with platform := p }) h.echo.eq, h.echo.own,
      h.echo.intrusions, h.echo.alone⟩, h.lock_eq, h.owner⟩
  tracing on h :=
    ⟨⟨congrArg (fun k : Machine => { k with tracing := on }) h.echo.eq, h.echo.own,
      h.echo.intrusions, h.echo.alone⟩, h.lock_eq, h.owner⟩
  installed h :=
    ⟨⟨congrArg (fun k : Machine => { k with installed := true }) h.echo.eq, h.echo.own,
      h.echo.intrusions, h.echo.alone⟩, h.lock_eq, h.owner⟩
  journal {m n} line h :=
    ⟨⟨congrArg (fun k : Machine => { k with journal := m.journal.push line }) h.echo.eq, h.echo.own,
      h.echo.intrusions, h.echo.alone⟩, h.lock_eq, h.owner⟩
  events {m n e} he h := by
    refine ⟨⟨?_, ?_, ?_, ?_⟩, h.lock_eq, h.owner⟩
    · exact congrArg (fun k : Machine => { k with events := m.events.push e }) h.echo.eq
    · rw [ownEvents_push m he, ownEvents_push n he, h.echo.own]
    · rw [outcomes_push m he]
      exact h.echo.intrusions
    · rw [outcomes_push n he]
      exact h.echo.alone

theorem handed_echoAt : Handed g (EchoAt .unlocked g before) (EchoAt g.lock g before) where
  idle := tandem_echoAt
  busy := tandem_echoAt
  unlocked h := ⟨h.lock_eq, h.lock_eq'⟩
  locked h := ⟨h.lock_eq, h.lock_eq'⟩
  owner h := h.owner
  take h :=
    ⟨⟨congrArg (fun k : Machine => { k with lock := g.lock }) h.echo.eq, h.echo.own,
      h.echo.intrusions, h.echo.alone⟩, rfl, h.owner⟩
  give h :=
    ⟨⟨congrArg (fun k : Machine => { k with lock := .unlocked }) h.echo.eq, h.echo.own,
      h.echo.intrusions, h.echo.alone⟩, rfl, h.owner⟩

/-- Intrusions into one of two runs make no difference between them. -/
theorem paired_intrusions (is : List Intrusion) :
    Paired (EchoAt g.lock g before) (is.forM Intrusion.run) (pure ()) := by
  intro m n h
  induction is generalizing m with
  | nil => exact .returned h
  | cons i rest ih =>
    obtain ⟨k, hk, heq, hown, houtcomes⟩ := i.exists_run h.lock_eq
    show Together _ ((i.run >>= fun _ => rest.forM Intrusion.run) m) _
    rw [run_bind_ok hk]
    refine ih k ⟨⟨?_, hown.trans h.echo.own, ?_, h.echo.alone⟩, ?_, ?_⟩
    · rw [heq]
      exact congrArg (fun q : Machine =>
        { q with patience := k.patience, journal := k.journal, events := k.events }) h.echo.eq
    · obtain ⟨made, hmade⟩ := h.echo.intrusions
      refine ⟨made ++ [i], ?_⟩
      rw [houtcomes, hmade, List.map_append, List.append_assoc]
      rfl
    · rw [heq]
      exact h.lock_eq
    · rw [heq]
      exact h.owner

/-- So the platform may make any calls. -/
theorem paired_intruding (choose : PlatformCall → Machine → List Intrusion) (on : PlatformCall) :
    Paired (EchoAt g.lock g before) (intruding choose noEscape on) (Callback.none on) := by
  intro m n h
  have hpair := paired_intrusions (choose on m) m n h
  unfold intruding
  rw [run_bind_ok (run_get m)]
  generalize hr : (choose on m).forM Intrusion.run m = r at hpair
  cases hpair with
  | returned hk =>
    rw [run_bind_ok hr, run_bind_ok (run_get _)]
    exact .returned hk

end Echoes

/-! ## The lock afterwards -/

/-- A machine, twice, with the state of its lock, in the hands of the owner of a guard. -/
structure InHands (l : Lock) (g : Guard) (m n : Machine) : Prop where
  eq : m = n
  lock_eq : m.lock = l
  owner : m.context.id = g.owner

section Hands

variable {g : Guard} {l : Lock}

theorem tandem_inHands : Tandem (InHands l g) where
  same h := h.eq ▸ ⟨rfl, rfl, rfl, rfl, rfl⟩
  arena _ h := ⟨h.eq ▸ rfl, h.lock_eq, h.owner⟩
  platform _ h := ⟨h.eq ▸ rfl, h.lock_eq, h.owner⟩
  journal _ h := ⟨h.eq ▸ rfl, h.lock_eq, h.owner⟩
  events _ h := ⟨h.eq ▸ rfl, h.lock_eq, h.owner⟩
  tracing _ h := ⟨h.eq ▸ rfl, h.lock_eq, h.owner⟩
  installed h := ⟨h.eq ▸ rfl, h.lock_eq, h.owner⟩

theorem handed_inHands : Handed g (InHands .unlocked g) (InHands g.lock g) where
  idle := tandem_inHands
  busy := tandem_inHands
  unlocked h := ⟨h.lock_eq, h.eq ▸ h.lock_eq⟩
  locked h := ⟨h.lock_eq, h.eq ▸ h.lock_eq⟩
  owner h := h.owner
  take h := ⟨h.eq ▸ rfl, rfl, h.owner⟩
  give h := ⟨h.eq ▸ rfl, rfl, h.owner⟩

/-- Intrusions leave the lock as it is. -/
theorem paired_self_intrusions (is : List Intrusion) :
    Paired (InHands g.lock g) (is.forM Intrusion.run) (is.forM Intrusion.run) := by
  induction is with
  | nil => exact .pure _
  | cons i rest ih =>
    refine .bind ?_ fun _ => ih
    rintro m n ⟨rfl, hlock, howner⟩
    obtain ⟨k, hk, heq, -⟩ := i.exists_run hlock
    rw [hk]
    refine .returned ⟨rfl, ?_, ?_⟩
    · rw [heq]
      exact hlock
    · rw [heq]
      exact howner

theorem paired_escaping (choose : PlatformCall → Machine → List Intrusion)
    (escape : PlatformCall → Machine → Option Fault) (on : PlatformCall) :
    Paired (InHands g.lock g) (intruding choose escape on) (intruding choose escape on) := by
  refine .get (fun m n h => by rw [h.eq]) fun m => ?_
  refine .bind (paired_self_intrusions _) fun _ => .get (fun m n h => by rw [h.eq]) fun m => ?_
  cases escape on m with
  | none => exact .pure _
  | some e => exact .throw e

end Hands

end Machine

namespace World

open Machine

/-- Whatever calls the platform makes from inside an operation, and whoever makes them, none
of them returns, and the operation ends as it ends alone.  Also where the platform fails,
the lock is free afterwards and has no holder. -/
theorem Reachable.unimpressed {w : World} (h : w.Reachable) (c : Call) (site : CallSite)
    (choose : PlatformCall → Machine → List Intrusion) :
    Together (Echo ⟨w.machine.context.id, site⟩ w.machine.outcomes)
      (c.run (intruding choose noEscape) site w.machine) (c.run .none site w.machine) ∧
    ∀ escape, (after (c.run (intruding choose escape) site) w.machine).lock.locked = false ∧
      (after (c.run (intruding choose escape) site) w.machine).lock.holder = none := by
  obtain ⟨bs, hheld⟩ := h.held
  have hlock := hheld.served.lock_eq
  constructor
  · have hstart : EchoAt .unlocked ⟨w.machine.context.id, site⟩ w.machine.outcomes w.machine
        w.machine := ⟨⟨rfl, rfl, ⟨[], (List.append_nil _).symm⟩, rfl⟩, hlock, rfl⟩
    exact (handed_echoAt.call (paired_intruding choose) c _ _ hstart).mono fun _ _ hn => hn.echo
  · intro escape
    have hends := (handed_inHands (g := ⟨w.machine.context.id, site⟩)).call
      (paired_escaping choose escape) c _ _ ⟨rfl, hlock, rfl⟩
    refine Together.after (P := fun n => n.lock.locked = false ∧ n.lock.holder = none) hends
      fun m _ hn => ?_
    rw [hn.lock_eq]
    exact ⟨rfl, rfl⟩

/-- The context that holds the lock asks for memory while a page is mapped for it, and so
does another one. -/
def smallIntrusions : PlatformCall → Machine → List Intrusion
  | .mapPage, _ =>
    [⟨.allocate 10, ⟨5⟩, ⟨⟨1⟩, 0, true, true⟩, 3, .none, trivial⟩,
      ⟨.stats, ⟨6⟩, ⟨⟨2⟩, 0, true, true⟩, 3, .none, trivial⟩]
  | _, _ => []

theorem run_smallGrowth :
    allocate .none 4000 ⟨3⟩ smallWorld.machine =
      .ok 0x10000280 (after (allocate .none 4000 ⟨3⟩) smallWorld.machine) :=
  run_of_returns (by decide +kernel)

/-- Both come to nothing, and the block is given out where it would have been. -/
theorem unimpressed_smallWorld :
    ∃ n, (Call.allocate 4000).run (intruding smallIntrusions noEscape) ⟨3⟩ smallWorld.machine =
        .ok (.pointer 0x10000280) n ∧
      n.outcomes.length = 2 ∧
      Echo ⟨⟨1⟩, ⟨3⟩⟩ smallWorld.machine.outcomes n
        (after (allocate .none 4000 ⟨3⟩) smallWorld.machine) := by
  have htogether := (reachable_smallWorld.unimpressed (.allocate 4000) ⟨3⟩ smallIntrusions).1
  have halone : (Call.allocate 4000).run .none ⟨3⟩ smallWorld.machine =
      .ok (.pointer 0x10000280) (after (allocate .none 4000 ⟨3⟩) smallWorld.machine) :=
    run_bind_ok run_smallGrowth
  have hmade : (after ((Call.allocate 4000).run (intruding smallIntrusions noEscape) ⟨3⟩)
      smallWorld.machine).outcomes.length = 2 := by decide +kernel
  have hid : smallWorld.machine.context.id = ⟨1⟩ := by decide +kernel
  unfold after at hmade
  rw [halone, hid] at htogether
  generalize (Call.allocate 4000).run (intruding smallIntrusions noEscape) ⟨3⟩ smallWorld.machine =
    r at htogether hmade
  cases htogether with
  | returned hn => exact ⟨_, rfl, hmade, hn⟩

end World

end GuardedHeap
