/-
  Proofs/Calls.lean --- the operations of a heap.

  WHAT THIS FILE IS FOR.  Every operation runs under the lock, and the public ones
  turn what goes wrong into a report.  Between calls nobody holds the lock, the
  heap is sound, and no live block is empty.  An operation exchanges live blocks:
  some go, some come, and all others stay as they are.  What headers remember is
  credited to the call site.

  WHAT IS PROVED.  For every operation from such a state: when it returns, which
  live blocks went and which came, and that the state is one between calls again;
  when it fails, that the row of blocks still stands.
-/
import GuardedHeap.Proofs.Resize

set_option autoImplicit false

namespace GuardedHeap

/-! ## Faults as callers see them -/

/-- A fault as the caller of a public operation sees it. -/
def Fault.reported (site : CallSite) (c : Context) : Fault → Fault
  | .detected e => .fatal ⟨e, ⟨site, c.id, c.cpu⟩⟩
  | e => e

/-- The line that is written for it. -/
def Fault.lines : Fault → List LogLine
  | .detected e => [.failing e]
  | _ => []

namespace Machine

/-! ## The journal -/

/-- A machine with more lines in its journal. -/
def written (m : Machine) (lines : List LogLine) : Machine :=
  { m with journal := m.journal ++ lines.toArray }

@[simp] theorem written_nil (m : Machine) : m.written [] = m := by
  unfold written
  rw [Array.append_empty]

theorem written_append (m : Machine) (xs ys : List LogLine) :
    m.written (xs ++ ys) = (m.written xs).written ys := by
  simp only [written, List.append_toArray, Array.append_assoc]

theorem written_push (m : Machine) (line : LogLine) :
    m.written [line] = { m with journal := m.journal.push line } := by
  rw [written, Array.push_eq_append]

theorem run_log_written (line : LogLine) (m : Machine) :
    log line m = .ok () (m.written [line]) := by
  rw [run_log, written_push]

/-- A line that is written after boot only. -/
def onceBooted (m : Machine) (line : LogLine) : List LogLine :=
  if m.context.booted then [line] else []

theorem warnings_onceBooted (m : Machine) {line : LogLine} (h : line.level ≠ .warn) :
    (m.written (m.onceBooted line)).warnings = m.warnings := by
  unfold onceBooted
  split
  · exact (congrArg warnings (written_push m line)).trans (warnings_push h m)
  · rw [written_nil]

/-! ## The lock -/

/-- A machine whose lock was just taken for a call from a site. -/
def entered (m : Machine) (site : CallSite) (journal : Array LogLine) : Machine :=
  { m with lock := ⟨true, m.context.id.value, some site⟩, journal := journal }

/-- A machine whose lock was given back. -/
def left (m : Machine) (journal : Array LogLine) : Machine :=
  { m with lock := .unlocked, journal := journal }

theorem run_tryLock {m : Machine} (hl : m.lock = .unlocked) (me : ContextId) (site : CallSite) :
    tryLock false me site m = .ok true { m with lock := ⟨true, me.value, some site⟩ } := by
  have hattempt : m.lock.attempt false me site = .acquired ⟨true, me.value, some site⟩ := by
    rw [hl]
    exact Lock.attempt_of_not_locked rfl me site
  unfold tryLock
  rw [run_bind_ok (run_get m), hattempt]
  rfl

/-- A free lock is taken by the first attempt of a call whose exchange goes through. -/
theorem run_takeLock {m : Machine} (hl : m.lock = .unlocked) (wait : HeapM Unit) (me : ContextId)
    (site : CallSite) {spurious : List Bool} (hs : spurious.headD false = false) (turns : Nat) :
    takeLock wait me site spurious turns m =
      .ok () { m with lock := ⟨true, me.value, some site⟩ } := by
  cases turns with
  | zero =>
    rw [takeLock, hs, run_bind_ok (run_tryLock hl me site)]
    rfl
  | succ turns =>
    rw [takeLock, hs, run_bind_ok (run_tryLock hl me site)]
    rfl

/-- A machine after a turn of waiting. -/
def yielded (m : Machine) : Machine :=
  { m with
    patience := { m.patience with yields := m.patience.yields + 1 }
    events := m.events.push .yield }

/-- A turn of waiting ends the wait where patience is at its end. -/
theorem run_yieldNow (m : Machine) :
    yieldNow m = if m.patience.limit ≤ m.patience.yields + 1 then
      .error (.panic (.blocked (m.patience.yields + 1))) m.yielded else .ok () m.yielded := by
  by_cases hend : m.patience.limit ≤ m.patience.yields + 1
  · rw [if_pos hend]
    show (if m.patience.limit ≤ m.patience.yields + 1 then _ else _ : HeapM Unit) _ = _
    rw [if_pos hend]
    rfl
  · rw [if_neg hend]
    show (if m.patience.limit ≤ m.patience.yields + 1 then _ else _ : HeapM Unit) _ = _
    rw [if_neg hend]
    rfl

/-- The running context may use the heap: after boot interrupts have to be on. -/
def Open (m : Machine) : Prop := m.context.booted = true → m.context.interrupts = true

instance (m : Machine) : Decidable m.Open :=
  inferInstanceAs (Decidable (m.context.booted = true → m.context.interrupts = true))

/-- A free heap is entered by a context that may use it. -/
theorem run_enter_open {m : Machine} (hl : m.lock = .unlocked) (ho : m.Open) (site : CallSite) :
    enter site m =
      .ok () (m.entered site (m.written (m.onceBooted (.locking m.context.cpu))).journal) := by
  unfold enter onceBooted
  rw [run_bind_ok (run_get m)]
  dsimp only
  by_cases hb : m.context.booted = true
  · have hi : ¬ (!m.context.interrupts) = true := by simp [ho hb]
    rw [if_pos hb, if_pos hb, if_neg hi, run_bind_ok (run_log_written _ m)]
    exact run_takeLock (m := m.written [.locking m.context.cpu]) hl yieldNow _ site rfl _
  · rw [if_neg hb, if_neg hb, written_nil]
    exact run_takeLock hl yieldNow _ site rfl _

theorem run_enter_closed {m : Machine} (ho : ¬ m.Open) (site : CallSite) :
    enter site m = .error (.detected (.interruptsDisabled m.context.cpu)) m := by
  obtain ⟨hb, hi⟩ := Classical.not_imp.mp ho
  have hi' : (!m.context.interrupts) = true := by simp [hi]
  unfold enter
  rw [run_bind_ok (run_get m)]
  dsimp only
  rw [if_pos hb, if_pos hi']
  rfl

theorem run_releaseLock {m : Machine} (hl : m.lock.locked = true) :
    releaseLock m = .ok () (m.left m.journal) := by
  unfold releaseLock
  rw [run_bind_ok (run_get m), if_pos hl]
  rfl

section Ends

variable {α : Type} {Q : α → Machine → Prop} {E : Fault → Machine → Prop} {m : Machine}

theorem left_entered (hl : m.lock = .unlocked) (site : CallSite) (j j' : Array LogLine) :
    (m.entered site j).left j' = { m with journal := j' } := by
  unfold left entered
  rw [← hl]

/-- A body that returns runs between two lines that are written after boot. -/
theorem run_locked_ok {body : HeapM α} {r : α} {n : Machine} (hl : m.lock = .unlocked)
    (ho : m.Open) (site : CallSite)
    (hbody : body (m.entered site (m.written (m.onceBooted (.locking m.context.cpu))).journal) =
      .ok r n) (hlocked : n.lock.locked = true) :
    locked site body m =
      .ok r (n.left (n.written (n.onceBooted (.unlocking n.context.cpu))).journal) := by
  unfold locked onceBooted
  rw [run_bind_ok (run_enter_open hl ho site), run_bind_ok (run_tryCatch_ok hbody),
    run_bind_ok (run_releaseLock hlocked), run_bind_ok (run_get _)]
  by_cases hb : n.context.booted = true
  · rw [if_pos hb, if_pos (show (n.left n.journal).context.booted = true from hb),
      run_bind_ok (run_log_written _ _)]
    rfl
  · rw [if_neg hb, if_neg (show ¬ (n.left n.journal).context.booted = true from hb), written_nil]
    rfl

/-- A body runs under the lock of an open heap, and then the lock is free again.  What is
written around it are no warnings. -/
theorem exists_locked_warnings (body : HeapM α) (hl : m.lock = .unlocked) (ho : m.Open)
    (site : CallSite) :
    ∃ j, (m.entered site j).warnings = m.warnings ∧ Ends
      (fun r n => n.lock.locked = true →
        ∃ j', locked site body m = .ok r (n.left j') ∧ (n.left j').warnings = n.warnings)
      (fun e n => n.lock.locked = true → locked site body m = .error e (n.left n.journal))
      (body (m.entered site j)) := by
  refine ⟨(m.written (m.onceBooted (.locking m.context.cpu))).journal,
    @warnings_onceBooted m (.locking m.context.cpu) nofun, ?_⟩
  cases hr : body (m.entered site (m.written (m.onceBooted (.locking m.context.cpu))).journal) with
  | ok r n =>
    exact fun hlocked => ⟨_, run_locked_ok hl ho site hr hlocked,
      @warnings_onceBooted n (.unlocking n.context.cpu) nofun⟩
  | error e n =>
    intro hlocked
    have hhandle : (tryCatch body fun e => do
        releaseLock
        throw e) (m.entered site (m.written (m.onceBooted (.locking m.context.cpu))).journal) =
          .error e (n.left n.journal) := by
      rw [run_tryCatch_error hr, run_bind_ok (run_releaseLock hlocked)]
      rfl
    unfold locked
    rw [run_bind_ok (run_enter_open hl ho site)]
    exact run_bind_error hhandle

theorem exists_locked (body : HeapM α) (hl : m.lock = .unlocked) (ho : m.Open)
    (site : CallSite) :
    ∃ j, Ends
      (fun r n => n.lock.locked = true → ∃ j', locked site body m = .ok r (n.left j'))
      (fun e n => n.lock.locked = true → locked site body m = .error e (n.left n.journal))
      (body (m.entered site j)) := by
  obtain ⟨j, -, hrun⟩ := exists_locked_warnings body hl ho site
  refine ⟨j, hrun.mono (fun r n h hlocked => ?_) fun _ _ h => h⟩
  obtain ⟨j', hok, -⟩ := h hlocked
  exact ⟨j', hok⟩

/-- What a body under the lock leaves, with the lock free again. -/
theorem ends_locked {body : HeapM α} (hl : m.lock = .unlocked) (site : CallSite)
    (hE : ¬ m.Open → E (.detected (.interruptsDisabled m.context.cpu)) m)
    (hbody : m.Open → ∀ j, Ends (fun r n => n.lock.locked = true ∧ ∀ j', Q r (n.left j'))
      (fun e n => n.lock.locked = true ∧ E e (n.left n.journal)) (body (m.entered site j))) :
    Ends Q E (locked site body m) := by
  by_cases ho : m.Open
  · obtain ⟨j, hrun⟩ := exists_locked body hl ho site
    have h := hbody ho j
    cases hr : body (m.entered site j) with
    | ok r n =>
      rw [hr] at h hrun
      obtain ⟨j', hlocked⟩ := hrun h.1
      rw [hlocked]
      exact h.2 j'
    | error e n =>
      rw [hr] at h hrun
      rw [hrun h.1]
      exact h.2
  · unfold locked
    rw [run_bind_error (run_enter_closed ho site)]
    exact hE ho

/-- What fails is reported. -/
theorem run_reporting_error {body : HeapM α} {e : Fault} {n : Machine} (h : body m = .error e n)
    (site : CallSite) :
    reporting site body m = .error (e.reported site n.context) (n.written e.lines) := by
  unfold reporting
  rw [run_tryCatch_error h]
  cases e with
  | detected error =>
    dsimp only
    rw [run_bind_ok (run_log_written _ n)]
    rfl
  | refused reason => exact congrArg _ (written_nil n).symm
  | fatal report => exact congrArg _ (written_nil n).symm
  | panic cause => exact congrArg _ (written_nil n).symm

/-- A body that fails ends in the report of its fault. -/
theorem ends_reported {E' : Fault → Machine → Prop} {body : HeapM α} (site : CallSite)
    (hE : ∀ e n, E e n → E' (e.reported site n.context) (n.written e.lines))
    (hbody : Ends Q E (body m)) :
    Ends Q E' (reporting site body m) := by
  cases hr : body m with
  | ok r n =>
    rw [hr] at hbody
    unfold reporting
    rw [run_tryCatch_ok hr]
    exact hbody
  | error e n =>
    rw [hr] at hbody
    rw [run_reporting_error hr]
    exact hE e n hbody

/-- A report changes nothing but the journal. -/
theorem ends_reporting {body : HeapM α} (site : CallSite)
    (hE : ∀ error n j, E (.detected error) n →
      E (.fatal ⟨error, ⟨site, n.context.id, n.context.cpu⟩⟩) { n with journal := j })
    (hbody : Ends Q E (body m)) :
    Ends Q E (reporting site body m) := by
  refine ends_reported site (fun e n hn => ?_) hbody
  cases e with
  | detected error => exact hE error n _ hn
  | refused reason => exact (written_nil n).symm ▸ hn
  | fatal report => exact (written_nil n).symm ▸ hn
  | panic cause => exact (written_nil n).symm ▸ hn

end Ends

/-! ## Between calls -/

/-- A machine between two calls: the heap is sound, nobody holds the lock, and no
live block is empty. -/
structure Served (bs : List Block) (m : Machine) : Prop where
  sound : m.arena.Sound m.platform bs
  lock_eq : m.lock = .unlocked
  filled : ∀ x ∈ live 0 bs, 0 < x.2.size

theorem Served.sound_of_eq {m n : Machine} {bs : List Block} (hs : m.Served bs)
    (ha : n.arena = m.arena) (hp : n.platform = m.platform) : n.arena.Sound n.platform bs := by
  rw [ha, hp]
  exact hs.sound

/-- What an operation that returns makes of the live blocks of a sound heap: those
in `gone` went and those in `new` came. -/
structure Exchanged (gone new : List (Nat × Block)) (bs bs' : List Block) (m m' : Machine) :
    Prop where
  sound : m'.arena.Sound m'.platform bs'
  around : m.Around m'
  perm : List.Perm (gone ++ live 0 bs') (new ++ live 0 bs)
  filled : ∀ x ∈ new, 0 < x.2.size

/-- A call from a site exchanged live blocks, and what headers remember is credited to
it. -/
structure Performed (site : CallSite) (gone new : List (Nat × Block)) (bs bs' : List Block)
    (m m' : Machine) : Prop extends Exchanged gone new bs bs' m m' where
  credited : Credited (m.stamp site) site bs bs'

/-- A call from a site exchanged live blocks, and `R` says of what it returned and of
these blocks how they belong together. -/
def Exchanges {α : Type} (site : CallSite)
    (R : α → List (Nat × Block) → List (Nat × Block) → Prop) (bs : List Block) (m : Machine)
    (r : α) (m' : Machine) : Prop :=
  ∃ gone new bs', R r gone new ∧ Performed site gone new bs bs' m m'

section

variable {m n : Machine} {site : CallSite} {bs bs' : List Block}
  {gone new : List (Nat × Block)} {journal : Array LogLine}

theorem Exchanged.served (h : Exchanged gone new bs bs' m n) (hs : m.Served bs) :
    n.Served bs' := by
  refine ⟨h.sound, h.around.lock_eq.trans hs.lock_eq, ?_⟩
  intro x hx
  have hmem : x ∈ new ++ live 0 bs := h.perm.mem_iff.mp (List.mem_append_right _ hx)
  rcases List.mem_append.mp hmem with hx | hx
  · exact h.filled x hx
  · exact hs.filled x hx

theorem Exchanged.mem_live (h : Exchanged gone new bs bs' m n) {x : Nat × Block}
    (hx : x ∈ live 0 bs) (hg : x ∉ gone) : x ∈ live 0 bs' := by
  have hmem : x ∈ gone ++ live 0 bs' := h.perm.mem_iff.mpr (List.mem_append_right _ hx)
  exact (List.mem_append.mp hmem).resolve_left hg

theorem Exchanged.mem_gone (h : Exchanged gone new bs bs' m n) {x : Nat × Block}
    (hx : Dropped bs bs' x) : x ∈ gone := by
  by_contra hg
  exact hx.2 x (h.mem_live hx.1 hg) rfl

theorem Exchanged.perm_rest (h : Exchanged gone new bs bs' m n) {rest : List (Nat × Block)}
    (hrest : List.Perm (gone ++ rest) (live 0 bs)) : List.Perm (new ++ rest) (live 0 bs') := by
  have hall : List.Perm (gone ++ live 0 bs') (gone ++ (new ++ rest)) :=
    (h.perm.trans (hrest.symm.append_left new)).trans (List.perm_append_comm_assoc _ _ _)
  exact ((List.perm_append_left_iff gone).mp hall).symm

theorem Performed.refl (hs : m.arena.Sound m.platform bs) (journal : Array LogLine) :
    Performed site [] [] bs bs m { m with journal := journal } :=
  ⟨⟨hs, ⟨rfl, rfl, rfl, rfl, rfl, rfl⟩, List.Perm.refl _, fun _ hx => nomatch hx⟩,
    (Unaltered.refl bs).credited⟩

/-! ### The lock and the journal do not matter -/

theorem Around.left (h : Around (m.entered site journal) n)
    (hl : m.lock = .unlocked) (j : Array LogLine) : m.Around (n.left j) :=
  ⟨h.window_eq, hl.symm, h.tracing_eq, h.installed_eq, h.context_eq, h.keepFrames_eq⟩

theorem Around.of_journal (h : Around { m with journal := journal } n) : m.Around n :=
  ⟨h.window_eq, h.lock_eq, h.tracing_eq, h.installed_eq, h.context_eq, h.keepFrames_eq⟩

theorem Around.log (h : m.Around n) (j : Array LogLine) : m.Around { n with journal := j } :=
  ⟨h.window_eq, h.lock_eq, h.tracing_eq, h.installed_eq, h.context_eq, h.keepFrames_eq⟩

theorem Stalled.left (h : Stalled bs (m.entered site journal) n)
    (hl : m.lock = .unlocked) (j : Array LogLine) : m.Stalled bs (n.left j) :=
  ⟨h.around.left hl j, h.row, h.le_top, h.le_ceiling⟩

theorem Stalled.of_journal (h : Stalled bs { m with journal := journal } n) : m.Stalled bs n :=
  ⟨h.around.of_journal, h.row, h.le_top, h.le_ceiling⟩

theorem Stalled.log (h : m.Stalled bs n) (j : Array LogLine) :
    m.Stalled bs { n with journal := j } :=
  ⟨h.around.log j, h.row, h.le_top, h.le_ceiling⟩

theorem Declined.of_journal {e : Fault} (h : Declined bs { m with journal := journal } e n) :
    m.Declined bs e n :=
  ⟨h.1, h.2.of_journal⟩

theorem Performed.of_journal (h : Performed site gone new bs bs' { m with journal := journal } n) :
    Performed site gone new bs bs' m n :=
  ⟨⟨h.sound, h.around.of_journal, h.perm, h.filled⟩, h.credited⟩

end

section Operations

variable {α : Type} {R : α → List (Nat × Block) → List (Nat × Block) → Prop} {m : Machine}
  {bs : List Block} {E : Fault → Machine → Prop}

/-- Work under the lock, seen from outside. -/
theorem ends_locked_exchanges {body : HeapM α} (hs : m.Served bs) (site : CallSite)
    (hE : ¬ m.Open → E (.detected (.interruptsDisabled m.context.cpu)) m)
    (hbody : m.Open → ∀ j, Ends (Exchanges site R bs (m.entered site j))
      (fun e n => n.lock.locked = true ∧ E e (n.left n.journal)) (body (m.entered site j))) :
    Ends (Exchanges site R bs m) E (locked site body m) := by
  refine ends_locked hs.lock_eq site hE fun ho j => (hbody ho j).mono ?_ fun e n hn => hn
  rintro r n ⟨gone, new, bs', hR, h⟩
  refine ⟨by rw [h.around.lock_eq]; rfl, fun j' => ⟨gone, new, bs', hR, ?_⟩⟩
  exact ⟨⟨h.sound, h.around.left hs.lock_eq j', h.perm, h.filled⟩, h.credited⟩

/-- What is declined under the lock, seen from outside. -/
theorem Declined.locked {n : Machine} {e : Fault} {site : CallSite} {journal : Array LogLine}
    (h : Declined bs (m.entered site journal) e n) (hl : m.lock = .unlocked) :
    n.lock.locked = true ∧ m.Declined bs e (n.left n.journal) :=
  ⟨by rw [h.2.around.lock_eq]; rfl, h.1, h.2.left hl _⟩

/-- A line in the journal before the work. -/
theorem ends_log_exchanges {body : HeapM α} {site : CallSite} (line : LogLine)
    (hbody : ∀ j,
      Ends (Exchanges site R bs { m with journal := j }) E (body { m with journal := j })) :
    Ends (Exchanges site R bs m) E
      ((do
        log line
        body : HeapM α) m) := by
  rw [run_bind_ok (run_log line m)]
  refine (hbody _).mono ?_ fun e n hn => hn
  rintro r n ⟨gone, new, bs', hR, h⟩
  exact ⟨gone, new, bs', hR, h.of_journal⟩

end Operations

/-! ## Allocation -/

section Allocation

variable {m : Machine} {bs : List Block}

/-- What comes when a block is given out. -/
inductive Allocated (size : Nat) (site : CallSite) (bs : List Block) (m : Machine) :
    Nat → List (Nat × Block) → List (Nat × Block) → Prop
  | intro {pre post : List Block} {c : Block} (ho : m.Open) (hf : Found size bs pre c post) :
      Allocated size site bs m (m.arena.payload (span pre)) []
        [(span pre, m.newBlock size site c)]

/-- The block at an offset went and nothing came. -/
def Freed {α : Type} (off : Nat) (b : Block) (_ : α) (gone new : List (Nat × Block)) : Prop :=
  gone = [(off, b)] ∧ new = []

/-- The size a request is rounded to. -/
def requestSize (size : Nat) : Nat := max (Word.roundUp size) granule

theorem requestSize_aligned (size : Nat) : requestSize size % granule = 0 := by
  have := Word.roundUp_mod size
  unfold requestSize
  simp only [granule] at *
  omega

/-- A block that was placed came, and no other. -/
theorem performed_of_found {n : Machine} {size : Nat} {site : CallSite} {pre post : List Block}
    {c : Block} (hf : Found size bs pre c post) (ho : Orderly m.arena.window.floor bs)
    (hs : n.arena.Sound n.platform (pre ++ m.newBlock size site c :: (c.leftover size ++ post)))
    (haround : m.Around n) (hpos : 0 < size) :
    Performed site [] [(span pre, m.newBlock size site c)] bs
      (pre ++ m.newBlock size site c :: (c.leftover size ++ post)) m n := by
  have hused : (m.newBlock size site c).used = true := Block.used_taken c size
  have hperm := hf.perm_live ho hused rfl
  refine ⟨⟨hs, haround, hperm, ?_⟩,
    credited_placed hperm (record_newBlock m size site c) fun z hz => hf.marked hused rfl hz⟩
  intro x hx
  rw [List.mem_singleton] at hx
  rw [hx]
  exact Nat.lt_of_lt_of_le hpos (Block.le_size_taken hf.le_size)

/-- Placing a block and answering with its payload. -/
theorem ends_place (hs : m.arena.Sound m.platform bs) (ho : m.Open) {size : Nat} (site : CallSite)
    (hg : size % granule = 0) (hpos : 0 < size) :
    Ends (Exchanges site (Allocated size site bs m) bs m) (m.Declined bs)
      ((do
        let off ← takeSegment .none size site
        return (← get).arena.payload off : HeapM Nat) m) := by
  have hplaced := takeSegment_cases site hs hg
  generalize hr : takeSegment .none size site m = r at hplaced
  cases r with
  | ok off n =>
    cases hplaced with
    | @done _ pre post c hf hmax room sound around =>
      have hpayload : n.arena.payload (span pre) = m.arena.payload (span pre) :=
        (payload_of_around around _).symm
      rw [run_bind_ok hr, run_bind_ok (run_get n), hpayload]
      exact ⟨[], _, _, .intro ho hf, performed_of_found hf hs.orderly sound around hpos⟩
  | error e n =>
    rw [run_bind_error hr]
    exact hplaced.declined hs.lists

theorem tryAllocate_eq {size : Nat} (hmax : size ≤ Word.maxRequest) (callback : Callback)
    (site : CallSite) :
    tryAllocate callback size site = (do
      log (.allocating (requestSize size) site)
      locked site do
        let off ← takeSegment callback (requestSize size) site
        return (← get).arena.payload off) := by
  unfold tryAllocate
  rw [if_neg (Nat.not_lt.mpr hmax), Word.rounded_eq hmax]
  rfl

/-- Giving out a block. -/
theorem ends_tryAllocate (hs : m.Served bs) (size : Nat) (site : CallSite) :
    Ends (Exchanges site (Allocated (requestSize size) site bs m) bs m) (m.Declined bs)
      (tryAllocate .none size site m) := by
  by_cases hsize : Word.maxRequest < size
  · unfold tryAllocate
    rw [if_pos hsize]
    exact declined_of_detected trivial (Stalled.refl hs.sound.lists)
  · rw [tryAllocate_eq (Nat.le_of_not_lt hsize)]
    apply ends_log_exchanges _
    intro j
    have hs' : Served bs { m with journal := j } := ⟨hs.sound, hs.lock_eq, hs.filled⟩
    have hkept : Stalled bs m { m with journal := j } := (Stalled.refl hs.sound.lists).log j
    apply ends_locked_exchanges hs' site (fun _ => declined_of_detected trivial hkept)
    intro ho j'
    have hsound : Arena.Sound (arena (entered { m with journal := j } site j'))
      (platform (entered { m with journal := j } site j')) bs := hs.sound
    refine (ends_place hsound ho site (requestSize_aligned size)
      (Nat.lt_of_lt_of_le (by decide) (Nat.le_max_right _ _))).mono ?_
      fun e n hn => ⟨(hn.locked hs'.lock_eq).1, (hn.locked hs'.lock_eq).2.of_journal⟩
    rintro r n ⟨gone, new, bs', ⟨-, hf⟩, h⟩
    exact ⟨_, _, bs', .intro ho hf, h⟩

/-! ## Freeing -/

/-- Taking back a live block from its address fails only for a context that may
not use the heap. -/
theorem ends_tryFree (hs : m.Served bs) {off : Nat} {b : Block} (hb : (off, b) ∈ live 0 bs)
    (site : CallSite) :
    Ends (Exchanges site (Freed off b) bs m)
      (fun e n => ¬ m.Open ∧ e = .detected (.interruptsDisabled m.context.cpu) ∧ m.Stalled bs n)
      (tryFree .none (m.arena.payload off) site m) := by
  obtain ⟨hu, pre, post, rfl, hoff⟩ := mem_live_iff.mp hb
  rw [Nat.zero_add] at hoff
  subst hoff
  have hpos := hs.filled _ hb
  unfold tryFree
  apply ends_log_exchanges _
  intro j
  have hs' : Served (pre ++ b :: post) { m with journal := j } := ⟨hs.sound, hs.lock_eq, hs.filled⟩
  have hkept : m.Stalled (pre ++ b :: post) { m with journal := j } :=
    (Stalled.refl hs.sound.lists).log j
  apply ends_locked_exchanges hs' site (fun ho => ⟨ho, rfl, hkept⟩)
  intro _ j'
  have hsound : Arena.Sound (arena (entered { m with journal := j } site j'))
    (platform (entered { m with journal := j } site j')) (pre ++ b :: post) := hs.sound
  have hlocate : Arena.locate (arena (entered { m with journal := j } site j'))
      (m.arena.payload (span pre)) = .ok (span pre) := hs.sound.lists.locate_payload hpos
  obtain ⟨n, bs', hrun, hfinal, haround, hperm, hcredited⟩ := run_releaseSegment site hsound hu
  rw [run_bind_ok (run_get _), hlocate, run_bind_ok (run_lift_ok _ _), hrun]
  exact ⟨[(span pre, b)], [], bs', ⟨rfl, rfl⟩,
    ⟨hfinal, haround, hperm, fun x hx => nomatch hx⟩, hcredited⟩

end Allocation

/-! ## Resizing -/

section Resizing

variable {m : Machine} {bs : List Block} {off size : Nat} {b : Block} {site : CallSite}

/-- What goes and what comes when the block `b` at an offset gets a payload of
`size` bytes, and the address it has then. -/
inductive Resized (off size : Nat) (site : CallSite) (b : Block) (bs : List Block)
    (m : Machine) : Nat → List (Nat × Block) → List (Nat × Block) → Prop
  /-- it was cut down where it is -/
  | cut (hle : size ≤ b.size) :
      Resized off size site b bs m (m.arena.payload off) [(off, b)] [(off, b.taken size)]
  /-- it grew over the free block behind it -/
  | grown {pre rest : List Block} {y : Block} (hlt : b.size < size)
      (hrow : bs = pre ++ b :: y :: rest) (hoff : off = span pre) (hy : y.used = false)
      (hfits : size ≤ b.size + headerSize + y.size) (hmax : y.size ≤ Word.maxRequest) :
      Resized off size site b bs m (m.arena.payload off) [(off, b)]
        [(off, (b.fuse y).taken size)]
  /-- there was no room behind it, and it moved -/
  | moved {front behind pre post : List Block} {c : Block} (hlt : b.size < size)
      (hrow : bs = front ++ b :: behind) (hoff : off = span front)
      (hnone : ¬ b.HasRoomBehind size behind) (hf : Found size bs pre c post)
      (hmax : c.size ≤ Word.maxRequest) (room : m.HasRoom size bs) :
      Resized off size site b bs m (m.arena.payload (span pre)) [(off, b)]
        [(span pre, m.movedBlock size site c b)]

/-- Whatever the way, a resized block has room for the size it was given. -/
theorem Resized.le_size {r : Nat} {gone new : List (Nat × Block)}
    (h : Resized off size site b bs m r gone new) : ∀ x ∈ new, size ≤ x.2.size := by
  intro x hx
  cases h with
  | cut hle =>
    rw [List.mem_singleton] at hx
    rw [hx]
    exact Block.le_size_taken hle
  | grown hlt hrow hoff hy hfits hmax =>
    rw [List.mem_singleton] at hx
    rw [hx]
    refine Block.le_size_taken ?_
    simp only [Block.fuse]
    omega
  | moved hlt hrow hoff hnone hf hmax room =>
    rw [List.mem_singleton] at hx
    rw [hx]
    exact Block.le_size_taken hf.le_size

theorem perm_replace {pre post : List Block} {b c : Block} {bs' : List Block} (hu : b.used = true)
    (hlive : live 0 bs' = live 0 pre ++ (span pre, c) :: live (span pre + b.extent) post) :
    List.Perm ([(span pre, b)] ++ live 0 bs') ([(span pre, c)] ++ live 0 (pre ++ b :: post)) := by
  rw [hlive, live_append, live_cons_used hu, Nat.zero_add, List.singleton_append,
    List.singleton_append]
  refine (List.Perm.cons _ List.perm_middle).trans ((List.Perm.swap _ _ _).trans ?_)
  exact List.Perm.cons _ List.perm_middle.symm

theorem performed_resized {r : Nat} {gone : List (Nat × Block)} {x : Nat × Block}
    {bs' : List Block} {n : Machine} (h : Resized off size site b bs m r gone [x])
    (hpos : 0 < size) (hs : n.arena.Sound n.platform bs') (haround : m.Around n)
    (hperm : List.Perm (gone ++ live 0 bs') (x :: live 0 bs))
    (hcredited : Credited (m.stamp site) site bs bs') :
    Performed site gone [x] bs bs' m n :=
  ⟨⟨hs, haround, hperm, fun y hy => Nat.lt_of_lt_of_le hpos (h.le_size y hy)⟩, hcredited⟩

theorem tryResize_eq (hmax : size ≤ Word.maxRequest) (callback : Callback) (address : Nat)
    (site : CallSite) :
    tryResize callback address size site = (do
      log (.resizing address (Word.roundUp size) site)
      locked site (resizeBlock callback address (Word.roundUp size) site)) := by
  unfold tryResize
  rw [Word.rounded_eq hmax]
  rfl

/-- An address leads to a segment in use, which is cut down, or grows, or is moved. -/
theorem resizeBlock_of_read {address : Nat} {h : Header}
    (hlocate : m.arena.locate address = .ok off) (hread : m.arena.read off = .ok h)
    (hu : h.used = true) (callback : Callback) (size : Nat) (site : CallSite) :
    resizeBlock callback address size site m =
      (if size ≤ h.size then do
        shrink callback off size
        return address
      else do
        match ← roomBehind m.arena off size h with
        | some next =>
          growInPlace callback off size next
          return address
        | none => relocate callback off h.size size site : HeapM Nat) m := by
  have hused : ¬ (!h.used) = true := by simp [hu]
  unfold resizeBlock
  rw [run_bind_ok (run_get _)]
  dsimp only
  rw [hlocate, run_bind_ok (run_lift_ok _ _), hread, run_bind_ok (run_lift_ok _ _)]
  exact congrFun (if_neg hused) m

section Row

variable {pre post : List Block}

/-- The block is found in its row. -/
theorem resizeBlock_located (hl : m.arena.Lists (pre ++ b :: post)) (hu : b.used = true)
    (hpos : 0 < b.size) (callback : Callback) (size : Nat) (site : CallSite) :
    resizeBlock callback (m.arena.payload (span pre)) size site m =
      (if size ≤ b.size then do
        shrink callback (span pre) size
        return m.arena.payload (span pre)
      else do
        match ← roomBehind m.arena (span pre) size (b.headerIn pre post) with
        | some next =>
          growInPlace callback (span pre) size next
          return m.arena.payload (span pre)
        | none => relocate callback (span pre) b.size size site : HeapM Nat) m := by
  rw [resizeBlock_of_read (hl.locate_payload hpos) hl.read hu, Block.headerIn_size]

theorem resizeBlock_cut (hl : m.arena.Lists (pre ++ b :: post)) (hu : b.used = true)
    (hpos : 0 < b.size) (hle : size ≤ b.size) (callback : Callback) (site : CallSite) :
    resizeBlock callback (m.arena.payload (span pre)) size site m = (do
      shrink callback (span pre) size
      return m.arena.payload (span pre) : HeapM Nat) m := by
  rw [resizeBlock_located hl hu hpos, if_pos hle]

theorem resizeBlock_grown (hl : m.arena.Lists (pre ++ b :: post)) (hu : b.used = true)
    (hpos : 0 < b.size) (hlt : b.size < size) (hroom : b.HasRoomBehind size post)
    (callback : Callback) (site : CallSite) :
    resizeBlock callback (m.arena.payload (span pre)) size site m = (do
      growInPlace callback (span pre) size (span pre + b.extent)
      return m.arena.payload (span pre) : HeapM Nat) m := by
  rcases roomBehind_eq size hl with ⟨-, hfound⟩ | ⟨hnone, -⟩
  · rw [resizeBlock_located hl hu hpos, if_neg (Nat.not_le.mpr hlt), hfound,
      run_bind_ok (run_lift_ok _ _)]
  · exact absurd hroom hnone

theorem resizeBlock_moved (hl : m.arena.Lists (pre ++ b :: post)) (hu : b.used = true)
    (hpos : 0 < b.size) (hlt : b.size < size) (hnone : ¬ b.HasRoomBehind size post)
    (callback : Callback) (site : CallSite) :
    resizeBlock callback (m.arena.payload (span pre)) size site m =
      relocate callback (span pre) b.size size site m := by
  rcases roomBehind_eq size hl with ⟨hroom, -⟩ | ⟨-, hfound⟩
  · exact absurd hroom hnone
  · rw [resizeBlock_located hl hu hpos, if_neg (Nat.not_le.mpr hlt), hfound,
      run_bind_ok (run_lift_ok _ _)]

/-- Giving a live block another size, from under the lock. -/
theorem ends_resizeBlock (hs : m.arena.Sound m.platform (pre ++ b :: post)) (hu : b.used = true)
    (hfilled : 0 < b.size) (hg : size % granule = 0) (hpos : 0 < size) (site : CallSite) :
    Ends (Exchanges site (Resized (span pre) size site b (pre ++ b :: post) m) (pre ++ b :: post) m)
      (m.Declined (pre ++ b :: post))
      (resizeBlock .none (m.arena.payload (span pre)) size site m) := by
  rcases Nat.lt_or_ge b.size size with hlt | hle
  · by_cases hroom : b.HasRoomBehind size post
    · rw [resizeBlock_grown hs.lists hu hfilled hlt hroom]
      obtain ⟨y, rest, rfl, hy, hfits⟩ := hroom
      by_cases hlong : Word.maxRequest < y.size
      · rw [run_bind_error (run_growInPlace_tooLong hs.lists hy hlong size)]
        have hstop := (Arena.Lists.concat_iff.mpr hs.lists).stop_le
        have hreach := top_le_horizon hs.lists
        have he : y.extent = headerSize + y.size := rfl
        exact ⟨.inr ⟨rfl, by omega⟩, Stalled.refl hs.lists⟩
      have hmax := Nat.le_of_not_lt hlong
      obtain ⟨n, bs', hrun, hsound, haround, hlive, hmarked⟩ :=
        run_growInPlace hs hu hy hg (Nat.le_of_lt hlt) hfits hmax
      have hR : Resized (span pre) size site b (pre ++ b :: y :: rest) m
          (m.arena.payload (span pre)) [(span pre, b)] [(span pre, (b.fuse y).taken size)] :=
        .grown hlt rfl rfl hy hfits hmax
      rw [run_bind_ok hrun]
      exact ⟨_, _, bs', hR, performed_resized hR hpos hsound haround (perm_replace hu hlive)
        (unaltered_replaced hu hlive (Block.record_taken _ _) hmarked).credited⟩
    · have hb : (span pre, b) ∈ live 0 (pre ++ b :: post) :=
        mem_live_iff.mpr ⟨hu, pre, post, rfl, (Nat.zero_add _).symm⟩
      have hmoved := relocate_cases site hs hb hg (Nat.le_of_lt hlt)
      rw [resizeBlock_moved hs.lists hu hfilled hlt hroom]
      generalize relocate .none (span pre) b.size size site m = r at hmoved
      cases hmoved with
      | @done _ _ pre' _ c hf hmax room sound around moved credited =>
        have hR : Resized (span pre) size site b (pre ++ b :: post) m (m.arena.payload (span pre'))
          [(span pre, b)] [(span pre', m.movedBlock size site c b)] :=
          .moved hlt rfl rfl hroom hf hmax room
        exact ⟨_, _, _, hR, performed_resized hR hpos sound around moved credited⟩
      | failed placed => exact placed.declined hs.lists
  · obtain ⟨n, bs', hrun, hsound, haround, hlive, hmarked⟩ := run_shrink hs hu hg hle
    have hR : Resized (span pre) size site b (pre ++ b :: post) m (m.arena.payload (span pre))
      [(span pre, b)] [(span pre, b.taken size)] := .cut hle
    rw [resizeBlock_cut hs.lists hu hfilled hle, run_bind_ok hrun]
    exact ⟨_, _, bs', hR, performed_resized hR hpos hsound haround (perm_replace hu hlive)
      (unaltered_replaced hu hlive (Block.record_taken _ _) hmarked).credited⟩

end Row

/-- Resizing a live block through its address. -/
theorem ends_tryResize (hs : m.Served bs) (hb : (off, b) ∈ live 0 bs) (hpos : 0 < size)
    (hmax : size ≤ Word.maxRequest) (site : CallSite) :
    Ends (Exchanges site (Resized off (Word.roundUp size) site b bs m) bs m) (m.Declined bs)
      (tryResize .none (m.arena.payload off) size site m) := by
  obtain ⟨hu, pre, post, rfl, hoff⟩ := mem_live_iff.mp hb
  rw [Nat.zero_add] at hoff
  subst hoff
  have hround : 0 < Word.roundUp size := Nat.lt_of_lt_of_le hpos (Word.le_roundUp size)
  rw [tryResize_eq hmax]
  apply ends_log_exchanges _
  intro j
  have hs' : Served (pre ++ b :: post) { m with journal := j } := ⟨hs.sound, hs.lock_eq, hs.filled⟩
  have hkept : m.Stalled (pre ++ b :: post) { m with journal := j } :=
    (Stalled.refl hs.sound.lists).log j
  apply ends_locked_exchanges hs' site (fun _ => declined_of_detected trivial hkept)
  intro _ j'
  have hsound : Arena.Sound (arena (entered { m with journal := j } site j'))
    (platform (entered { m with journal := j } site j')) (pre ++ b :: post) := hs.sound
  refine (ends_resizeBlock hsound hu (hs.filled _ hb) (Word.roundUp_mod size) hround site).mono ?_
    fun e n hn => ⟨(hn.locked hs'.lock_eq).1, (hn.locked hs'.lock_eq).2.of_journal⟩
  rintro r n ⟨gone, new, bs', hR, h⟩
  refine ⟨gone, new, bs', ?_, h⟩
  cases hR with
  | cut hle => exact .cut hle
  | grown hlt hrow hoff hy hfits hmax => exact .grown hlt hrow hoff hy hfits hmax
  | moved hlt hrow hoff hnone hf hmax room =>
    exact .moved hlt hrow hoff hnone hf hmax (room.congr rfl rfl)

end Resizing

/-! ## Looking -/

section Looking

variable {α : Type} {m : Machine} {bs : List Block}

/-- Nothing went and nothing came. -/
def Untouched (_ : α) (gone new : List (Nat × Block)) : Prop := gone = [] ∧ new = []

/-- An operation that only adds lines to the journal, however it ends. -/
def Quiet (m : Machine) (r : EStateM.Result Fault Machine α) : Prop :=
  Ends (fun _ n => ∃ j, n = { m with journal := j }) (fun _ n => ∃ j, n = { m with journal := j }) r

theorem Quiet.of_journal {r : EStateM.Result Fault Machine α} {journal : Array LogLine}
    (h : Quiet { m with journal := journal } r) : m.Quiet r :=
  h.mono (fun _ _ hn => hn) fun _ _ hn => hn

/-- A listing only writes to the journal. -/
theorem quiet_addUsage (details : Bool) (u : Usage) (ss : List Segment) (m : Machine) :
    m.Quiet (addUsage details u ss m) := by
  induction ss generalizing u m with
  | nil => exact ⟨m.journal, rfl⟩
  | cons s rest ih =>
    unfold addUsage
    by_cases hu : s.header.used = true
    · rw [if_pos hu]
      cases hadd : Word.add u.used s.header.size with
      | error e => exact ⟨m.journal, rfl⟩
      | ok used =>
        rw [run_bind_ok (run_lift_ok _ _)]
        cases details with
        | false => exact ih _ m
        | true =>
          rw [if_pos rfl]
          cases usageLine s.header with
          | none => exact ih _ m
          | some line =>
            dsimp only
            rw [run_bind_ok (run_log line m)]
            exact (ih _ _).of_journal
    · rw [if_neg hu]
      cases hadd : Word.add u.unused s.header.size with
      | error e => exact ⟨m.journal, rfl⟩
      | ok unused =>
        rw [run_bind_ok (run_lift_ok _ _)]
        exact ih _ m

/-- So does counting what is in use, from under the lock. -/
theorem quiet_count (details : Bool) (m : Machine) :
    m.Quiet ((do
      if details then log .usageHeading
      let w := (← get).arena.walk
      let u ← addUsage details ⟨0, 0, 0⟩ w.segments
      if let some f := w.failure then throw f
      return u : HeapM Usage) m) := by
  have hcount : ∀ m : Machine, m.Quiet ((do
      let w := (← get).arena.walk
      let u ← addUsage details ⟨0, 0, 0⟩ w.segments
      if let some f := w.failure then throw f
      return u : HeapM Usage) m) := by
    intro m
    rw [run_bind_ok (run_get m)]
    dsimp only
    have hquiet := quiet_addUsage details ⟨0, 0, 0⟩ m.arena.walk.segments m
    generalize hr : addUsage details ⟨0, 0, 0⟩ m.arena.walk.segments m = r at hquiet
    cases r with
    | error e n =>
      rw [run_bind_error hr]
      exact hquiet
    | ok u n =>
      rw [run_bind_ok hr]
      cases m.arena.walk.failure with
      | none => exact hquiet
      | some f => exact hquiet
  cases details with
  | false => exact hcount m
  | true =>
    rw [if_pos rfl, run_bind_ok (run_log _ m)]
    exact (hcount _).of_journal

/-- Taking the lock and giving it back is only seen in the journal. -/
theorem quiet_locked {body : HeapM α} (hl : m.lock = .unlocked) (site : CallSite)
    (hbody : ∀ j, Quiet (m.entered site j) (body (m.entered site j))) :
    m.Quiet (locked site body m) := by
  refine ends_locked hl site (fun _ => ⟨m.journal, rfl⟩) fun _ j => (hbody j).mono ?_ ?_
  · rintro r n ⟨j', rfl⟩
    refine ⟨rfl, fun j'' => ⟨j'', ?_⟩⟩
    unfold left entered
    rw [← hl]
  · rintro e n ⟨j', rfl⟩
    refine ⟨rfl, ⟨j', ?_⟩⟩
    unfold left entered
    rw [← hl]

theorem quiet_reporting {body : HeapM α} (site : CallSite) (hbody : m.Quiet (body m)) :
    m.Quiet (reporting site body m) := by
  refine ends_reporting site ?_ hbody
  rintro error n j ⟨j', rfl⟩
  exact ⟨j, rfl⟩

/-- Listing what is in use changes nothing. -/
theorem quiet_usedBytes (hl : m.lock = .unlocked) (details : Bool) (site : CallSite) :
    m.Quiet (usedBytes details site m) := by
  refine quiet_reporting site ?_
  unfold tryUsedBytes
  refine Ends.bind (quiet_locked hl site fun j => quiet_count details _) ?_
  rintro u n ⟨j, rfl⟩
  cases details with
  | false => exact ⟨j, rfl⟩
  | true =>
    rw [if_pos rfl]
    cases u.percent with
    | error e => exact ⟨j, rfl⟩
    | ok percent => exact ⟨_, rfl⟩

theorem quiet_stats (hl : m.lock = .unlocked) (site : CallSite) : m.Quiet (stats site m) := by
  refine quiet_reporting site (quiet_locked hl site ?_)
  intro j
  rw [run_bind_ok (run_get _)]
  cases (arena (m.entered site j)).totals with
  | error e => exact ⟨j, rfl⟩
  | ok t => exact ⟨j, rfl⟩

theorem quiet_audit (hl : m.lock = .unlocked) (site : CallSite) : m.Quiet (audit site m) := by
  unfold audit
  exact Ends.bind (quiet_stats hl site) fun _ _ hn => hn

/-- Work under the lock that only writes to the journal, seen from outside. -/
theorem run_locked {body : HeapM α} {r : Except Fault α} (hl : m.lock = .unlocked) (ho : m.Open)
    (site : CallSite)
    (hbody : ∀ j, ∃ j', body (m.entered site j) =
      ended r { m.entered site j with journal := j' }) :
    ∃ j, locked site body m = ended r { m with journal := j } := by
  obtain ⟨j, hrun⟩ := exists_locked body hl ho site
  obtain ⟨j', hj⟩ := hbody j
  rw [hj] at hrun
  cases r with
  | ok a =>
    obtain ⟨j'', hok⟩ := hrun rfl
    exact ⟨j'', hok.trans (congrArg _ (left_entered hl site j' j''))⟩
  | error e => exact ⟨j', (hrun rfl).trans (congrArg _ (left_entered hl site j' j'))⟩

/-- An operation reports an error for a call from a site, and only writes to the
journal. -/
def Reports (m : Machine) (site : CallSite) (error : HeapError)
    (r : EStateM.Result Fault Machine α) : Prop :=
  ∃ j, r = .error (.fatal ⟨error, ⟨site, m.context.id, m.context.cpu⟩⟩) { m with journal := j }

/-- Work under the lock of an open heap whose failures are reported.  What is written around
it are no warnings. -/
theorem exists_reported {line : LogLine} (hline : line.level ≠ .warn) (hl : m.lock = .unlocked)
    (ho : m.Open) (body : HeapM α) (site : CallSite) :
    ∃ j, (m.entered site j).warnings = m.warnings ∧ Ends
      (fun r n => n.lock.locked = true → ∃ j', reporting site (do
          log line
          locked site body) m = .ok r (n.left j') ∧ (n.left j').warnings = n.warnings)
      (fun e n => n.lock.locked = true → ∃ j', reporting site (do
          log line
          locked site body) m = .error (e.reported site n.context) (n.left j'))
      (body (m.entered site j)) := by
  obtain ⟨j, hquiet, hrun⟩ := exists_locked_warnings
    (m := { m with journal := m.journal.push line }) body hl ho site
  refine ⟨j, hquiet.trans (warnings_push hline m), hrun.mono ?_ ?_⟩
  · intro r n h hlocked
    obtain ⟨j', hok, hwarnings⟩ := h hlocked
    exact ⟨j', run_tryCatch_ok ((run_bind_ok (run_log line m)).trans hok), hwarnings⟩
  · intro e n h hlocked
    have hfailed : (do
        log line
        locked site body : HeapM α) m = .error e (n.left n.journal) :=
      (run_bind_ok (run_log line m)).trans (h hlocked)
    exact ⟨_, run_reporting_error hfailed site⟩

/-- An error that is detected under the lock before anything is changed is reported. -/
theorem reports_of_detected {body : HeapM α} {error : HeapError} (hl : m.lock = .unlocked)
    (ho : m.Open) (site : CallSite) (line : LogLine)
    (hbody : ∀ j, ∃ j', body (m.entered site j) =
      .error (.detected error) { m.entered site j with journal := j' }) :
    m.Reports site error (reporting site (do
      log line
      locked site body) m) := by
  obtain ⟨j, hrun⟩ := run_locked (m := { m with journal := m.journal.push line })
    (r := .error (.detected error)) hl ho site hbody
  have hdetected : (do
      log line
      locked site body : HeapM α) m = .error (.detected error) { m with journal := j } := by
    rw [run_bind_ok (run_log line m)]
    exact hrun
  exact ⟨j.push (.failing error), run_tryCatch_error hdetected⟩

/-- An audit returns the sums of the arena to every context that may use the heap. -/
theorem run_stats_of_totals {t : Totals} (hl : m.lock = .unlocked) (ho : m.Open) (site : CallSite)
    (ht : m.arena.totals = .ok t) : ∃ j, stats site m = .ok t { m with journal := j } := by
  have hbody : ∀ j, ∃ j', ((do
      (← get).arena.totals) : HeapM Totals) (m.entered site j) =
        ended (.ok t) { m.entered site j with journal := j' } := by
    intro j
    refine ⟨j, ?_⟩
    rw [run_bind_ok (run_get _)]
    show (liftM (arena (m.entered site j)).totals : HeapM Totals) _ = _
    rw [show (arena (m.entered site j)).totals = .ok t from ht]
    rfl
  obtain ⟨j, hrun⟩ := run_locked hl ho site hbody
  exact ⟨j, run_tryCatch_ok hrun⟩

/-- An audit of a sound heap succeeds for every context that may use the heap,
and returns the sums of its blocks. -/
theorem run_stats (hs : m.Served bs) (ho : m.Open) (site : CallSite) :
    ∃ j, stats site m = .ok ((Totals.start m.arena).over bs) { m with journal := j } :=
  run_stats_of_totals hs.lock_eq ho site (hs.sound.lists.totals hs.sound.orderly.separated)

end Looking

/-! ## The public operations -/

section Public

variable {α : Type} {R : α → List (Nat × Block) → List (Nat × Block) → Prop} {m : Machine}
  {bs : List Block} {off size : Nat} {b : Block}

theorem Served.stands (hs : m.Served bs) (hb : (off, b) ∈ live 0 bs) :
    (∃ prev next, Stands m.arena.memory off b prev next) ∧ off + b.extent ≤ m.arena.top := by
  obtain ⟨-, pre, post, rfl, hoff⟩ := mem_live_iff.mp hb
  rw [Nat.zero_add] at hoff
  subst hoff
  exact ⟨⟨_, _, hs.sound.lists.stands⟩, hs.sound.lists.stop_le⟩

theorem Served.stop_lt (hs : m.Served bs) (hb : (off, b) ∈ live 0 bs) :
    m.arena.window.base + off + headerSize + b.size < 2 ^ 64 := by
  have hstop := (hs.stands hb).2
  have htop := hs.sound.lists.top_le
  have hfits := m.arena.window.fits
  have he : b.extent = headerSize + b.size := rfl
  omega

theorem Served.payload_eq (hs : m.Served bs) (hb : (off, b) ∈ live 0 bs) :
    m.arena.payload off = m.arena.window.base + off + headerSize ∧ m.arena.payload off ≠ 0 := by
  obtain ⟨-, pre, post, rfl, hoff⟩ := mem_live_iff.mp hb
  rw [Nat.zero_add] at hoff
  rw [hoff, hs.sound.lists.payload_eq]
  refine ⟨(Nat.add_assoc _ _ _).symm, ?_⟩
  simp only [headerSize]
  omega

theorem Served.payload_aligned (hs : m.Served bs) (hb : (off, b) ∈ live 0 bs) :
    m.arena.payload off % granule = 0 := by
  have hbase := m.arena.window.base_aligned
  rw [(hs.payload_eq hb).1]
  obtain ⟨-, pre, post, rfl, rfl⟩ := mem_live_iff.mp hb
  have hpre := hs.sound.lists.span_pre_aligned
  simp only [granule, headerSize, pageSize] at *
  omega

/-- A call to a sound heap did not do its work: it was declined, and the report says why, or
it came to a payload that is too long.  The live blocks stand. -/
def Reported (bs : List Block) (m : Machine) (e : Fault) (n : Machine) : Prop :=
  ((∃ report : Report, e = .fatal report ∧ report.error.Declines) ∨ m.Overlong e) ∧
    m.Stalled bs n

theorem Declined.reported {e : Fault} {n : Machine} (h : m.Declined bs e n) (site : CallSite) :
    m.Reported bs (e.reported site n.context) (n.written e.lines) := by
  obtain ⟨⟨error, rfl, hdeclines⟩ | ⟨rfl, hreach⟩, hstalled⟩ := h
  · exact ⟨.inl ⟨_, rfl, hdeclines⟩, hstalled.log _⟩
  · exact ⟨.inr ⟨rfl, hreach⟩, hstalled.log _⟩

/-- A call was turned away: its context may not use the heap. -/
def TurnedAway (bs : List Block) (m : Machine) (site : CallSite) (e : Fault) (n : Machine) :
    Prop :=
  ¬ m.Open ∧
    e = .fatal ⟨.interruptsDisabled m.context.cpu, ⟨site, m.context.id, m.context.cpu⟩⟩ ∧
    m.Stalled bs n

theorem reallocate_eq {address size : Nat} (hmax : size ≤ Word.maxRequest) (hpos : 0 < size)
    (haddress : address ≠ 0) (site : CallSite) :
    reallocate .none address size site = reporting site (do
      log (.resizing address (Word.roundUp size) site)
      locked site (resizeBlock .none address (Word.roundUp size) site)) := by
  unfold reallocate tryReallocate
  rw [if_neg (Nat.not_lt.mpr hmax), if_neg (Nat.ne_of_gt hpos), if_neg haddress,
    tryResize_eq hmax]

theorem ends_reporting_exchanges {body : HeapM α} (site : CallSite)
    (hbody : Ends (Exchanges site R bs m) (m.Declined bs) (body m)) :
    Ends (Exchanges site R bs m) (m.Reported bs) (reporting site body m) :=
  ends_reported site (fun _ _ hn => hn.reported site) hbody

/-- Giving out a block. -/
theorem ends_allocate (hs : m.Served bs) (size : Nat) (site : CallSite) :
    Ends (Exchanges site (Allocated (requestSize size) site bs m) bs m) (m.Reported bs)
      (allocate .none size site m) :=
  ends_reporting_exchanges site (ends_tryAllocate hs size site)

/-- Taking a live block back fails only for a context that may not use the heap. -/
theorem ends_free (hs : m.Served bs) (hb : (off, b) ∈ live 0 bs) (site : CallSite) :
    Ends (Exchanges site (Freed off b) bs m) (m.TurnedAway bs site)
      (free .none (m.arena.payload off) site m) := by
  have haddress := (hs.payload_eq hb).2
  unfold free
  rw [if_neg haddress]
  refine Ends.bind (ends_reported site ?_ (ends_tryFree hs hb site)) ?_
  · rintro _ n ⟨ho, rfl, hstalled⟩
    refine ⟨ho, ?_, hstalled.log _⟩
    rw [hstalled.around.context_eq]
    rfl
  intro r n hn
  exact hn

theorem run_free_null (site : CallSite) (m : Machine) : free .none 0 site m = .ok false m := rfl

/-- Resizing a live block to some bytes. -/
theorem ends_reallocate (hs : m.Served bs) (hb : (off, b) ∈ live 0 bs) (hpos : 0 < size)
    (site : CallSite) :
    Ends (Exchanges site (Resized off (Word.roundUp size) site b bs m) bs m) (m.Reported bs)
      (reallocate .none (m.arena.payload off) size site m) := by
  have haddress := (hs.payload_eq hb).2
  refine ends_reporting_exchanges site ?_
  unfold tryReallocate
  by_cases hmax : Word.maxRequest < size
  · rw [if_pos hmax]
    exact declined_of_detected trivial (Stalled.refl hs.sound.lists)
  · rw [if_neg hmax, if_neg (by omega), if_neg haddress]
    exact ends_tryResize hs hb hpos (Nat.le_of_not_lt hmax) site

/-- Resizing a live block to nothing frees it. -/
theorem ends_reallocate_zero (hs : m.Served bs) (hb : (off, b) ∈ live 0 bs) (site : CallSite) :
    Ends (Exchanges site (fun (r : Nat) gone new => r = 0 ∧ Freed off b r gone new) bs m)
      (m.Reported bs) (reallocate .none (m.arena.payload off) 0 site m) := by
  have haddress := (hs.payload_eq hb).2
  refine ends_reporting_exchanges site ?_
  unfold tryReallocate
  rw [if_neg (by decide), if_pos rfl, if_pos haddress]
  refine Ends.bind ((ends_tryFree hs hb site).mono (fun _ _ hn => hn) ?_) ?_
  · rintro _ n ⟨-, rfl, hstalled⟩
    exact declined_of_detected trivial hstalled
  rintro r n ⟨gone, new, bs', hR, h⟩
  exact ⟨gone, new, bs', ⟨rfl, hR⟩, h⟩

/-- Resizing nothing gives out a block, unless it is resized to nothing. -/
theorem ends_reallocate_null (hs : m.Served bs) (size : Nat) (site : CallSite) :
    Ends (Exchanges site (fun r gone new =>
        if size = 0 then r = 0 ∧ Untouched r gone new
        else Allocated (requestSize size) site bs m r gone new) bs m) (m.Reported bs)
      (reallocate .none 0 size site m) := by
  refine ends_reporting_exchanges site ?_
  unfold tryReallocate
  by_cases hmax : Word.maxRequest < size
  · rw [if_pos hmax]
    exact declined_of_detected trivial (Stalled.refl hs.sound.lists)
  · rw [if_neg hmax]
    by_cases hzero : size = 0
    · simp only [if_pos hzero]
      exact ⟨[], [], bs, ⟨rfl, rfl, rfl⟩, Performed.refl hs.sound m.journal⟩
    · simp only [if_neg hzero]
      exact ends_tryAllocate hs size site

end Public

end Machine

end GuardedHeap
