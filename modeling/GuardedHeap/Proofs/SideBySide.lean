/-
  Proofs/SideBySide.lean --- the same operation with different code in its platform calls.

  WHAT THIS FILE IS FOR.  Code that runs inside a platform call interrupts an operation
  anywhere: with pages half mapped, headers half written, the top not yet moved.  To say
  that it makes no difference, the operation is run twice, side by side, with different
  code in its platform calls.  Which machines belong together is a parameter: a relation
  that shows the same segments and the same platform on both sides, and that every change
  made to both keeps (`Tandem`).  With the lock there are two such relations, one for each
  of its states (`Handed`).

  WHAT IS PROVED.  If the code in the platform calls keeps the relation while the lock is
  taken, so does every operation: it ends on both sides in the same way, and the machines
  it leaves belong together.
-/
import GuardedHeap.Proofs.Exclusion

set_option autoImplicit false

namespace GuardedHeap

/-- An event of an operation itself: neither what it let run inside a platform call nor
that somebody waited. -/
def Event.own : Event → Bool
  | .yield => false
  | .nested _ => false
  | _ => true

namespace Machine

/-! ## Two runs -/

section Pairs

variable {α β : Type} {R : Machine → Machine → Prop}

/-- Two runs ended in the same way and left machines that belong together. -/
inductive Together (R : Machine → Machine → Prop) :
    EStateM.Result Fault Machine α → EStateM.Result Fault Machine α → Prop
  | returned {r : α} {m n : Machine} : R m n → Together R (.ok r m) (.ok r n)
  | failed {e : Fault} {m n : Machine} : R m n → Together R (.error e m) (.error e n)

theorem Together.mono {S : Machine → Machine → Prop} {r s : EStateM.Result Fault Machine α}
    (h : Together R r s) (hS : ∀ m n, R m n → S m n) : Together S r s := by
  cases h with
  | returned hR => exact .returned (hS _ _ hR)
  | failed hR => exact .failed (hS _ _ hR)

theorem Together.after {P : Machine → Prop} {x : HeapM α} {m : Machine}
    {s : EStateM.Result Fault Machine α} (h : Together R (x m) s) (hP : ∀ m n, R m n → P m) :
    P (after x m) := by
  unfold Machine.after
  generalize hr : x m = r at h
  cases h with
  | returned hR => exact hP _ _ hR
  | failed hR => exact hP _ _ hR

/-- Two programs run together on machines that belong together. -/
def Paired (R : Machine → Machine → Prop) (x y : HeapM α) : Prop :=
  ∀ m n, R m n → Together R (x m) (y n)

namespace Paired

theorem pure (r : α) : Paired R (Pure.pure r) (Pure.pure r) := fun _ _ h => .returned h

theorem throw (e : Fault) : Paired R (throw e : HeapM α) (throw e) := fun _ _ h => .failed h

theorem throw_bind (e : Fault) (f k : α → HeapM β) :
    Paired R ((MonadExcept.throw e : HeapM α) >>= f) ((MonadExcept.throw e : HeapM α) >>= k) :=
  fun _ _ h => .failed h

theorem lift (x : Except Fault α) : Paired R (liftM x : HeapM α) (liftM x) := by
  intro m n h
  cases x with
  | ok r => exact .returned h
  | error e => exact .failed h

/-- Programs run together one after the other. -/
theorem bind {x y : HeapM α} {f k : α → HeapM β} (hx : Paired R x y)
    (hf : ∀ r, Paired R (f r) (k r)) : Paired R (x >>= f) (y >>= k) := by
  intro m n h
  have ht := hx m n h
  generalize hr : x m = rx at ht
  generalize hs : y n = ry at ht
  cases ht with
  | returned hR =>
    rw [run_bind_ok hr, run_bind_ok hs]
    exact hf _ _ _ hR
  | failed hR =>
    rw [run_bind_error hr, run_bind_error hs]
    exact .failed hR

theorem get {f k : Machine → HeapM α} (hsame : ∀ m n, R m n → k m = k n)
    (h : ∀ m, Paired R (f m) (k m)) : Paired R (get >>= f) (get >>= k) := by
  intro m n hR
  have ht := h m m n hR
  rw [hsame m n hR] at ht
  exact ht

theorem ite {c : Prop} [Decidable c] {x y x' y' : HeapM α} (ht : Paired R x x')
    (he : Paired R y y') : Paired R (if c then x else y) (if c then x' else y') := by
  split
  · exact ht
  · exact he

/-- Handlers run together where bodies do. -/
theorem tryCatch {x y : HeapM α} {f k : Fault → HeapM α} (hx : Paired R x y)
    (hf : ∀ e, Paired R (f e) (k e)) : Paired R (tryCatch x f) (tryCatch y k) := by
  intro m n h
  have ht := hx m n h
  generalize hr : x m = rx at ht
  generalize hs : y n = ry at ht
  cases ht with
  | returned hR =>
    rw [run_tryCatch_ok hr, run_tryCatch_ok hs]
    exact .returned hR
  | failed hR =>
    rw [run_tryCatch_error hr, run_tryCatch_error hs]
    exact hf _ _ _ hR

end Paired

end Pairs

/-! ## What belongs together -/

/-- Two machines show the same, but for the lock and for what was logged and recorded. -/
structure Same (m n : Machine) : Prop where
  arena : m.arena = n.arena
  platform : m.platform = n.platform
  context : m.context = n.context
  tracing : m.tracing = n.tracing
  installed : m.installed = n.installed

/-- A relation between machines that show the same, kept by the same change of both. -/
structure Tandem (R : Machine → Machine → Prop) : Prop where
  same {m n : Machine} : R m n → Same m n
  arena {m n : Machine} (a : Arena) : R m n → R { m with arena := a } { n with arena := a }
  platform {m n : Machine} (p : Platform) : R m n →
    R { m with platform := p } { n with platform := p }
  journal {m n : Machine} (line : LogLine) : R m n →
    R { m with journal := m.journal.push line } { n with journal := n.journal.push line }
  events {m n : Machine} {e : Event} : e.own = true → R m n →
    R { m with events := m.events.push e } { n with events := n.events.push e }
  tracing {m n : Machine} (on : Bool) : R m n → R { m with tracing := on } { n with tracing := on }
  installed {m n : Machine} : R m n → R { m with installed := true } { n with installed := true }

namespace Tandem

variable {α : Type} {R : Machine → Machine → Prop} {cb cb' : Callback} (h : Tandem R)
  (hcb : ∀ on, Paired R (cb on) (cb' on))

include h

/-! ### Changes of parts -/

theorem log (line : LogLine) : Paired R (log line) (log line) :=
  fun _ _ hR => .returned (h.journal line hR)

theorem record {e : Event} (he : e.own = true) : Paired R (record e) (record e) :=
  fun _ _ hR => .returned (h.events he hR)

theorem modifyPlatform (f : Platform → Platform) :
    Paired R (modifyPlatform f) (modifyPlatform f) := by
  intro m n hR
  have hplatform := (h.same hR).platform
  refine .returned ?_
  show R { m with platform := f m.platform } { n with platform := f n.platform }
  rw [← hplatform]
  exact h.platform _ hR

theorem onArena (x : ArenaM α) : Paired R (onArena x) (onArena x) := by
  intro m n hR
  have harena := (h.same hR).arena
  unfold Machine.onArena
  rw [← harena]
  cases x m.arena with
  | ok r a => exact .returned (h.arena a hR)
  | error e a => exact .failed (h.arena a hR)

theorem look {f k : Machine → HeapM α} (hsame : ∀ m n : Machine, m.arena = n.arena → k m = k n)
    (hf : ∀ m, Paired R (f m) (k m)) : Paired R (get >>= f) (get >>= k) :=
  .get (fun m n hR => hsame m n (h.same hR).arena) hf

/-! ### Platform calls -/

include hcb

theorem allocateFrame : Paired R (allocateFrame cb) (allocateFrame cb') := by
  refine .bind (hcb .allocateFrame) fun _ => .get ?_ fun m => ?_
  · intro m n hR
    rw [(h.same hR).platform]
  · cases m.platform.frames with
    | nil => exact .bind (h.record rfl) fun _ => .pure none
    | cons f rest =>
      exact .bind (h.record rfl) fun _ => .bind (h.modifyPlatform _) fun _ => .pure (some f)

theorem mapPage (index frame : Nat) :
    Paired R (mapPage cb index frame) (mapPage cb' index frame) := by
  refine .bind (hcb .mapPage) fun _ => .get ?_ fun m => ?_
  · intro m n hR
    unfold pageNumber
    rw [(h.same hR).arena]
  · refine .bind (h.record rfl) fun _ => .bind (h.modifyPlatform _) fun _ => .get ?_ fun m => ?_
    · intro m n hR
      rw [(h.same hR).platform]
    · exact h.onArena _

theorem unmapPage (index : Nat) : Paired R (unmapPage cb index) (unmapPage cb' index) := by
  refine .bind (hcb .unmapPage) fun _ => .get ?_ fun m => ?_
  · intro m n hR
    unfold pageNumber
    rw [(h.same hR).arena]
  · refine .bind (h.record rfl) fun _ => .get ?_ fun m => ?_
    · intro m n hR
      rw [(h.same hR).platform]
    · exact .bind (h.modifyPlatform _) fun _ => .pure _

theorem releaseFrame (frame : Nat) : Paired R (releaseFrame cb frame) (releaseFrame cb' frame) :=
  .bind (hcb .releaseFrame) fun _ => .bind (h.record rfl) fun _ => h.modifyPlatform _

/-! ### The top moves -/

theorem mapPages (newTop index count : Nat) :
    Paired R (mapPages cb newTop index count) (mapPages cb' newTop index count) := by
  induction count generalizing index with
  | zero => exact .pure ()
  | succ count ih =>
    unfold Machine.mapPages
    refine .get ?_ fun m => .bind (.lift _) fun page => .bind (h.allocateFrame hcb) fun given => ?_
    · intro m n hR
      unfold pageNumber?
      rw [(h.same hR).arena]
    · cases given with
      | none => exact .throw _
      | some frame =>
        refine .bind (h.log _) fun _ => .bind (h.mapPage hcb index frame) fun _ =>
          .bind (.lift _) fun start => .bind (h.onArena _) fun _ => .bind (.lift _) fun next =>
          .bind (.lift _) fun stop => .bind (h.onArena _) fun _ => ih (index + 1)

theorem unmapPages (stop count : Nat) :
    Paired R (unmapPages cb stop count) (unmapPages cb' stop count) := by
  induction count generalizing stop with
  | zero => exact .pure ()
  | succ count ih =>
    unfold Machine.unmapPages
    refine .get ?_ fun m => .bind (.lift _) fun page => .bind (h.log _) fun _ =>
      .bind (h.unmapPage hcb (stop - 1)) fun frame => ?_
    · intro m n hR
      unfold pageNumber?
      rw [(h.same hR).arena]
    · cases frame with
      | none => exact ih (stop - 1)
      | some frame => exact .bind (h.releaseFrame hcb frame) fun _ => ih (stop - 1)

theorem moveTop (newTop : Nat) : Paired R (moveTop cb newTop) (moveTop cb' newTop) := by
  unfold Machine.moveTop
  refine h.look (fun m n e => by rw [e]) fun m => ?_
  dsimp only
  refine .ite (.throw_bind _ _ _) (.ite (.throw_bind _ _ _) (.ite ?_ (.ite ?_ ?_)))
  · exact .bind (h.mapPages hcb _ _ _) fun _ => .bind (h.onArena _) fun _ => .pure _
  · exact .bind (h.onArena _) fun _ => .bind (h.unmapPages hcb _ _) fun _ =>
      .bind (h.onArena _) fun _ => .pure _
  · exact .bind (h.unmapPages hcb _ _) fun _ => .bind (h.onArena _) fun _ => .pure _

/-! ### The end of the list -/

theorem extend (size : Nat) : Paired R (extend cb size) (extend cb' size) := by
  unfold Machine.extend
  refine h.look (fun m n e => by rw [e]) fun m => .bind (.lift _) fun last => ?_
  dsimp only
  refine .ite (.throw_bind _ _ _) (.ite (.bind (.lift _) fun _ => .throw_bind _ _ _) ?_)
  refine .bind (h.log _) fun _ => .bind (h.moveTop hcb _) fun _ => .ite ?_ ?_
  · exact .bind (h.onArena _) fun _ => .pure _
  · exact .bind (h.onArena _) fun _ => .pure _

theorem trim (off : Nat) : Paired R (trim cb off) (trim cb' off) := by
  unfold Machine.trim
  refine h.look (fun m n e => by rw [e]) fun m => ?_
  dsimp only
  refine .ite (.bind (.lift _) fun k => ?_) (.pure _)
  refine .ite (.throw_bind _ _ _) (.ite (.bind (.lift _) fun prev => ?_) ?_)
  · cases prev with
    | none => exact .throw _
    | some prev =>
      exact .bind (.lift _) fun _ => .bind (h.onArena _) fun _ =>
        .bind (h.moveTop hcb _) fun _ => .pure _
  · refine .bind (.lift _) fun payload => .bind (.lift _) fun stop => .ite ?_ (.pure _)
    exact .bind (h.onArena _) fun _ => .bind (h.moveTop hcb _) fun _ => .pure _

/-! ### Work on segments -/

omit hcb in
theorem forM_log {γ : Type} (xs : List γ) (line : γ → LogLine) :
    Paired R (xs.forM fun x => Machine.log (line x)) (xs.forM fun x => Machine.log (line x)) := by
  induction xs with
  | nil => exact .pure _
  | cons x xs ih => exact .bind (h.log (line x)) fun _ => ih

omit hcb in
theorem search (size : Nat) : Paired R (search size) (search size) := by
  unfold Machine.search
  refine h.look (fun m n e => by rw [e]) fun m => ?_
  exact .bind (h.forM_log _ _) fun _ => .lift _

omit hcb in
theorem checkClear (off : Nat) : Paired R (checkClear off) (checkClear off) := by
  unfold Machine.checkClear
  refine .bind (h.onArena _) fun found => ?_
  cases found with
  | none => exact .pure _
  | some found => exact h.log _

omit hcb in
/-- What is done to a segment that was found or made. -/
theorem stamp (size off : Nat) (site : CallSite) :
    let taken : HeapM Nat := do
      Machine.checkClear off
      let _ ← Machine.onArena (Arena.occupy off size)
      let m ← MonadState.get
      let stamp (k : Header) : Header :=
        { k with
          allocatedAt := if m.tracing then some site else none
          allocatedBy := if m.tracing then some m.context.id else none
          freedAt := none }
      let _ ← Machine.onArena (Arena.amend off stamp)
      return off
    Paired R taken taken := by
  refine .bind (h.checkClear off) fun _ => .bind (h.onArena _) fun _ => .get ?_ fun m => ?_
  · intro m n hR
    rw [(h.same hR).tracing, (h.same hR).context]
  · exact .bind (h.onArena _) fun _ => .pure off

theorem takeSegment (size : Nat) (site : CallSite) :
    Paired R (takeSegment cb size site) (takeSegment cb' size site) := by
  unfold Machine.takeSegment
  refine .bind (h.search size) fun found => ?_
  cases found with
  | some off => exact .bind (.pure off) fun off => h.stamp size off site
  | none => exact .bind (h.extend hcb size) fun off => h.stamp size off site

theorem releaseSegment (off : Nat) (site : CallSite) :
    Paired R (releaseSegment cb off site) (releaseSegment cb' off site) := by
  unfold Machine.releaseSegment
  refine h.look (fun m n e => by rw [e]) fun m => ?_
  dsimp only
  refine .bind (.lift _) fun k => .ite (.throw_bind _ _ _) ?_
  refine .bind (.lift _) fun prev => .bind (.lift _) fun next => .bind (.lift _) fun _ =>
    .bind (h.onArena _) fun merged => .bind (h.trim hcb merged) fun _ => ?_
  exact h.look (fun m n e => by rw [e]) fun m => .bind (.lift _) fun _ => .pure _

theorem shrink (off size : Nat) : Paired R (shrink cb off size) (shrink cb' off size) := by
  unfold Machine.shrink
  refine .bind (h.onArena _) fun tail => ?_
  cases tail with
  | none => exact .pure _
  | some tail => exact .bind (h.onArena _) fun merged => h.trim hcb merged

theorem growInPlace (off size next : Nat) :
    Paired R (growInPlace cb off size next) (growInPlace cb' off size next) := by
  unfold Machine.growInPlace
  refine .bind (h.checkClear next) fun _ => .bind (h.onArena _) fun tail => ?_
  cases tail with
  | none => exact .pure _
  | some tail => exact h.trim hcb tail

theorem relocate (off held size : Nat) (site : CallSite) :
    Paired R (relocate cb off held size site) (relocate cb' off held size site) := by
  unfold Machine.relocate
  refine .bind (h.takeSegment hcb size site) fun target => ?_
  refine h.look (fun m n e => by rw [e]) fun m => ?_
  exact .bind (h.onArena _) fun _ => .bind (h.releaseSegment hcb off site) fun _ => .pure _

end Tandem

/-! ## The lock changes hands -/

/-- A relation for machines whose lock is free and one for machines whose lock is taken,
with the guard of a call that changes one into the other. -/
structure Handed (g : Guard) (F H : Machine → Machine → Prop) : Prop where
  idle : Tandem F
  busy : Tandem H
  unlocked {m n : Machine} : F m n → m.lock = .unlocked ∧ n.lock = .unlocked
  locked {m n : Machine} : H m n → m.lock = g.lock ∧ n.lock = g.lock
  owner {m n : Machine} : F m n → m.context.id = g.owner
  take {m n : Machine} : F m n → H { m with lock := g.lock } { n with lock := g.lock }
  give {m n : Machine} : H m n → F { m with lock := .unlocked } { n with lock := .unlocked }

/-- The machine a call has entered. -/
def takenBy (m : Machine) (g : Guard) : Machine :=
  { m with
    lock := g.lock
    journal := if m.context.booted then m.journal.push (.locking m.context.cpu) else m.journal }

/-- A free heap is entered by a context that may use it. -/
theorem run_enter_unlocked {m : Machine} {g : Guard} (hl : m.lock = .unlocked)
    (howner : m.context.id = g.owner) (ho : m.Open) :
    enter g.site m = .ok () (m.takenBy g) := by
  unfold enter takenBy
  rw [run_bind_ok (run_get m), howner]
  dsimp only
  by_cases hb : m.context.booted = true
  · have hi : ¬ (!m.context.interrupts) = true := by simp [ho hb]
    rw [if_pos hb, if_neg hi, if_pos hb, run_bind_ok (run_log _ m)]
    exact run_takeLock (m := { m with journal := m.journal.push (.locking m.context.cpu) }) hl
      yieldNow g.owner g.site rfl _
  · rw [if_neg hb, if_neg hb]
    exact run_takeLock hl yieldNow g.owner g.site rfl _

namespace Handed

variable {α : Type} {g : Guard} {F H : Machine → Machine → Prop} {cb cb' : Callback}
  (h : Handed g F H)

include h

/-- Machines that belong together are entered together. -/
theorem takenBy {m n : Machine} (hF : F m n) : H (m.takenBy g) (n.takenBy g) := by
  have hcontext := (h.idle.same hF).context
  by_cases hb : m.context.booted = true
  · have hm : m.takenBy g =
        { m with lock := g.lock, journal := m.journal.push (.locking m.context.cpu) } := by
      unfold Machine.takenBy
      rw [if_pos hb]
    have hn : n.takenBy g =
        { n with lock := g.lock, journal := n.journal.push (.locking m.context.cpu) } := by
      unfold Machine.takenBy
      rw [if_pos (hcontext ▸ hb), hcontext]
    rw [hm, hn]
    exact h.take (h.idle.journal _ hF)
  · have hm : m.takenBy g = { m with lock := g.lock } := by
      unfold Machine.takenBy
      rw [if_neg hb]
    have hn : n.takenBy g = { n with lock := g.lock } := by
      unfold Machine.takenBy
      rw [if_neg (hcontext ▸ hb)]
    rw [hm, hn]
    exact h.take hF

/-- Bodies that run together under the lock run together from where it is free, and it is
free again. -/
theorem paired_locked {body body' : HeapM α} (hbody : Paired H body body') :
    Paired F (Machine.locked g.site body) (Machine.locked g.site body') := by
  intro m n hF
  have hcontext := (h.idle.same hF).context
  unfold Machine.locked
  by_cases ho : m.Open
  · have hon : n.Open := by
      unfold Open at ho ⊢
      rwa [hcontext] at ho
    have hm := run_enter_unlocked (h.unlocked hF).1 (h.owner hF) ho
    have hn := run_enter_unlocked (h.unlocked hF).2 (hcontext ▸ h.owner hF) hon
    rw [run_bind_ok hm, run_bind_ok hn]
    have ht := hbody _ _ (h.takenBy hF)
    generalize hr : body (m.takenBy g) = rx at ht
    generalize hs : body' (n.takenBy g) = ry at ht
    cases ht with
    | @returned r m' n' hH' =>
      have hback := h.give hH'
      rw [run_bind_ok (run_tryCatch_ok hr), run_bind_ok (run_tryCatch_ok hs),
        run_bind_ok (Contest.releaseLock_locked (h.locked hH').1),
        run_bind_ok (Contest.releaseLock_locked (h.locked hH').2)]
      refine Paired.get (fun p q hpq => ?_) (fun p => ?_) _ _ hback
      · rw [(h.idle.same hpq).context]
      · exact .ite (.bind (h.idle.log _) fun _ => .pure _) (.pure _)
    | @failed e m' n' hH' =>
      have hback := h.give hH'
      have hmfail : tryCatch body (fun e => do
          releaseLock
          throw e) (m.takenBy g) = .error e { m' with lock := .unlocked } := by
        rw [run_tryCatch_error hr, run_bind_ok (Contest.releaseLock_locked (h.locked hH').1)]
        rfl
      have hnfail : tryCatch body' (fun e => do
          releaseLock
          throw e) (n.takenBy g) = .error e { n' with lock := .unlocked } := by
        rw [run_tryCatch_error hs, run_bind_ok (Contest.releaseLock_locked (h.locked hH').2)]
        rfl
      rw [run_bind_error hmfail, run_bind_error hnfail]
      exact .failed hback
  · have hon : ¬ n.Open := by
      unfold Open at ho ⊢
      rwa [hcontext] at ho
    rw [run_bind_error (run_enter_closed ho g.site), run_bind_error (run_enter_closed hon g.site),
      hcontext]
    exact .failed hF

theorem paired_reporting {body body' : HeapM α} (hbody : Paired F body body') :
    Paired F (reporting g.site body) (reporting g.site body') := by
  refine .tryCatch hbody fun e => ?_
  cases e with
  | detected error =>
    refine .bind (h.idle.log _) fun _ => .get ?_ fun m => .throw _
    intro m n hF
    rw [(h.idle.same hF).context]
  | _ => exact .throw _

/-! ### Operations -/

/-! ### Looking at the heap -/

theorem addUsage (details : Bool) (u : Usage) (ss : List Segment) :
    Paired H (addUsage details u ss) (addUsage details u ss) := by
  induction ss generalizing u with
  | nil => exact .pure _
  | cons s rest ih =>
    unfold Machine.addUsage
    refine .ite (.bind (.lift _) fun used => .ite ?_ (ih _)) (.bind (.lift _) fun _ => ih _)
    cases usageLine s.header with
    | none => exact ih _
    | some line => exact .bind (h.busy.log line) fun _ => ih _

theorem usedBytes (details : Bool) :
    Paired F (usedBytes details g.site) (usedBytes details g.site) := by
  refine h.paired_reporting (.bind (h.paired_locked ?_) fun u => ?_)
  · refine .ite (.bind (h.busy.log _) fun _ => ?_) ?_
    -- the same listing follows, whether a line was written or not
    all_goals
      refine h.busy.look (fun m n e => by rw [e]) fun m => .bind (h.addUsage _ _ _) fun u => ?_
      cases m.arena.walk.failure with
      | none => exact .pure u
      | some f => exact .throw_bind _ _ _
  · exact .ite (.bind (.lift _) fun _ => .bind (h.idle.log _) fun _ => .pure _) (.pure _)

theorem stats : Paired F (stats g.site) (stats g.site) := by
  refine h.paired_reporting (h.paired_locked ?_)
  exact h.busy.look (fun m n e => by rw [e]) fun m => .lift _

theorem audit : Paired F (audit g.site) (audit g.site) :=
  .bind h.stats fun _ => .pure _

theorem topAddress : Paired F (topAddress g.site) (topAddress g.site) := by
  refine .bind h.stats fun t => ?_
  exact h.idle.look (fun m n e => by rw [e]) fun m => .lift _

/-! ### The allocator of the system -/

theorem requireInstalled : Paired F requireInstalled requireInstalled := by
  refine .get (fun m n hF => ?_) fun m => .ite (.throw _) (.pure _)
  rw [(h.idle.same hF).installed]

theorem install : Paired F install install := by
  unfold Machine.install
  refine .get (fun m n hF => ?_) fun m => ?_
  · rw [(h.idle.same hF).installed, (h.idle.same hF).arena]
  · refine .ite (.bind (h.idle.log _) fun _ => .throw_bind _ _ _) ?_
    refine .bind ?_ fun _ => .bind ?_ fun _ => fun m n hF => .returned (h.idle.installed hF)
    · refine h.idle.look (fun m n e => by rw [e]) fun m => ?_
      exact .bind (h.idle.log _) fun _ => h.idle.onArena _
    · exact h.idle.look (fun m n e => by rw [e]) fun m => h.idle.onArena _

section Operations

variable (hcb : ∀ on, Paired H (cb on) (cb' on))

include hcb

theorem tryAllocate (size : Nat) :
    Paired F (tryAllocate cb size g.site) (tryAllocate cb' size g.site) := by
  unfold Machine.tryAllocate
  refine .ite (.throw_bind _ _ _) (.bind (.lift _) fun rounded => ?_)
  refine .bind (h.idle.log _) fun _ => h.paired_locked ?_
  refine .bind (h.busy.takeSegment hcb _ _) fun off => ?_
  exact h.busy.look (fun m n e => by rw [e]) fun m => .pure _

theorem tryFree (address : Nat) :
    Paired F (tryFree cb address g.site) (tryFree cb' address g.site) := by
  unfold Machine.tryFree
  refine .bind (h.idle.log _) fun _ => h.paired_locked ?_
  refine h.busy.look (fun m n e => by rw [e]) fun m => .bind (.lift _) fun off => ?_
  exact h.busy.releaseSegment hcb off _

theorem tryResize (address size : Nat) :
    Paired F (tryResize cb address size g.site) (tryResize cb' address size g.site) := by
  unfold Machine.tryResize
  refine .bind (.lift _) fun rounded => .bind (h.idle.log _) fun _ => h.paired_locked ?_
  refine h.busy.look (fun m n e => by rw [e]) fun m => .bind (.lift _) fun off =>
    .bind (.lift _) fun k => .ite (.throw_bind _ _ _) (.ite ?_ (.bind (.lift _) fun room => ?_))
  · exact .bind (h.busy.shrink hcb _ _) fun _ => .pure _
  · cases room with
    | some next => exact .bind (h.busy.growInPlace hcb _ _ _) fun _ => .pure _
    | none => exact h.busy.relocate hcb _ _ _ _

theorem tryReallocate (address size : Nat) :
    Paired F (tryReallocate cb address size g.site) (tryReallocate cb' address size g.site) := by
  unfold Machine.tryReallocate
  refine .ite (.throw_bind _ _ _) (.ite (.ite ?_ (.pure _)) (.ite ?_ ?_))
  · exact .bind (h.tryFree hcb address) fun _ => .pure _
  · exact h.tryAllocate hcb size
  · exact h.tryResize hcb address size

theorem allocate (size : Nat) : Paired F (allocate cb size g.site) (allocate cb' size g.site) :=
  h.paired_reporting (h.tryAllocate hcb size)

theorem free (address : Nat) : Paired F (free cb address g.site) (free cb' address g.site) :=
  .ite (.pure _) (.bind (h.paired_reporting (h.tryFree hcb address)) fun _ => .pure _)

theorem reallocate (address size : Nat) :
    Paired F (reallocate cb address size g.site) (reallocate cb' address size g.site) :=
  h.paired_reporting (h.tryReallocate hcb address size)

/-! ### Layouts -/

theorem allocateLayout (l : Layout) :
    Paired F (allocateLayout cb l g.site) (allocateLayout cb' l g.site) := by
  unfold Machine.allocateLayout
  refine .bind h.requireInstalled fun _ => .ite (h.allocate hcb _) ?_
  refine .bind (h.allocate hcb _) fun block => .bind (.lift _) fun behind =>
    .bind (.lift _) fun aligned => ?_
  refine h.idle.look (fun m n e => by unfold slotOffset; rw [e]) fun m => ?_
  exact .bind (h.idle.onArena _) fun _ => .pure _

theorem freeLayout (address : Nat) (l : Layout) :
    Paired F (freeLayout cb address l g.site) (freeLayout cb' address l g.site) := by
  unfold Machine.freeLayout
  refine .bind h.requireInstalled fun _ => ?_
  refine h.idle.look (fun m n e => by unfold slotOffset; rw [e]) fun m => ?_
  exact .bind (h.free hcb _) fun _ => .pure _

theorem reallocateLayout (address : Nat) (l : Layout) (newSize : Nat) :
    Paired F (reallocateLayout cb address l newSize g.site)
      (reallocateLayout cb' address l newSize g.site) := by
  unfold Machine.reallocateLayout
  refine .ite (.bind h.requireInstalled fun _ => h.reallocate hcb _ _) ?_
  cases Layout.ofSizeAlign? newSize l.align with
  | none => exact .pure _
  | some newLayout =>
    refine .bind (h.allocateLayout hcb newLayout) fun target => ?_
    refine h.idle.look (fun m n e => by rw [e]) fun m => ?_
    exact .bind (h.idle.onArena _) fun _ => .bind (h.freeLayout hcb _ _) fun _ => .pure _

/-- A call does the same with either callback. -/
theorem call (c : Call) : Paired F (c.run cb g.site) (c.run cb' g.site) := by
  cases c with
  | allocate size => exact .bind (h.allocate hcb size) fun _ => .pure _
  | free address => exact .bind (h.free hcb address) fun _ => .pure _
  | reallocate address size => exact .bind (h.reallocate hcb address size) fun _ => .pure _
  | usedBytes details => exact .bind (h.usedBytes details) fun _ => .pure _
  | stats => exact .bind h.stats fun _ => .pure _
  | audit => exact .bind h.audit fun _ => .pure _
  | top => exact .bind h.topAddress fun _ => .pure _
  | setTracing on =>
    refine .bind (fun m n hF => .returned (h.idle.tracing on hF)) fun _ => .get ?_ fun m => .pure _
    intro m n hF
    rw [(h.idle.same hF).tracing]
  | isTracing =>
    refine .get ?_ fun m => .pure _
    intro m n hF
    rw [(h.idle.same hF).tracing]
  | lockHolder =>
    refine .get ?_ fun m => .pure _
    intro m n hF
    rw [(h.unlocked hF).1, (h.unlocked hF).2]
  | describe =>
    refine .get ?_ fun m => .pure _
    intro m n hF
    rw [(h.idle.same hF).arena, (h.idle.same hF).context]
  | isInstalled =>
    refine .get ?_ fun m => .pure _
    intro m n hF
    rw [(h.idle.same hF).installed]
  | install => exact .bind h.install fun _ => .pure _
  | allocateLayout l => exact .bind (h.allocateLayout hcb l) fun _ => .pure _
  | freeLayout address l => exact .bind (h.freeLayout hcb address l) fun _ => .pure _
  | reallocateLayout address l newSize =>
    exact .bind (h.reallocateLayout hcb address l newSize) fun _ => .pure _

end Operations

end Handed

end Machine

end GuardedHeap
