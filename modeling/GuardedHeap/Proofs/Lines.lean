/-
  Proofs/Lines.lean --- what operations write to the journal.

  WHAT THIS FILE IS FOR.  The journal only grows.  Which lines a program adds to it can
  often be said without a look at the heap it works on: it adds lines of some kind when
  every step of it does, and programs made from such programs are such programs.

  WHAT IS PROVED.  Moving the top and giving memory back write of pages only.  Finding
  room writes of the segments it looks at and of a top below the reserved maximum as
  well.  None of these lines is a warning.
-/
import GuardedHeap.Proofs.Effect

set_option autoImplicit false

namespace GuardedHeap

/-! ## Kinds of lines -/

namespace LogLine

/-- A line about a page that comes or goes. -/
inductive OfPage : LogLine → Prop
  | mapped (page frame : Nat) : OfPage (.mapPage page frame)
  | unmapped (page : Nat) : OfPage (.unmapPage page)

/-- A line of the search for room in an arena. -/
inductive OfRoom (a : Arena) : LogLine → Prop
  | visited {s : Segment} (h : s ∈ a.walk.segments) :
      OfRoom a (.visited (a.addr s.offset) s.header.size s.header.used)
  | grown {newTop : Nat} (h : newTop ≤ a.window.ceiling) :
      OfRoom a (.growTop (a.addr a.top) (a.addr newTop))
  | page {l : LogLine} (h : l.OfPage) : OfRoom a l

theorem OfPage.level_ne {l : LogLine} (h : l.OfPage) : l.level ≠ .warn := by
  cases h <;> exact nofun

theorem OfRoom.level_ne {a : Arena} {l : LogLine} (h : l.OfRoom a) : l.level ≠ .warn := by
  cases h with
  | visited h => exact nofun
  | grown h => exact nofun
  | page h => exact h.level_ne

end LogLine

theorem Arena.lookedAt_subset (size : Nat) (xs : List Segment) : lookedAt size xs ⊆ xs := by
  induction xs with
  | nil => exact List.Subset.refl _
  | cons s rest ih =>
    unfold lookedAt
    split
    · exact List.cons_subset.mpr ⟨List.mem_cons_self, List.nil_subset _⟩
    · exact List.cons_subset_cons s ih

namespace Machine

/-! ## Lines that were added -/

/-- On the way from `m` to `n` lines of a kind were written, and no others. -/
def Adds (P : LogLine → Prop) (m n : Machine) : Prop :=
  ∃ lines : List LogLine, n.journal = m.journal ++ lines.toArray ∧ ∀ l ∈ lines, P l

/-- The warnings in the journal, oldest first. -/
def warnings (m : Machine) : List LogLine := m.journal.toList.filter fun l => l.level = .warn

namespace Adds

variable {P Q : LogLine → Prop} {m n o : Machine}

theorem of_eq (h : n.journal = m.journal) : Adds P m n :=
  ⟨[], by rw [h, Array.append_empty], fun _ hl => nomatch hl⟩

theorem refl (m : Machine) : Adds P m m := of_eq rfl

theorem push {line : LogLine} (h : P line) (m : Machine) :
    Adds P m { m with journal := m.journal.push line } :=
  ⟨[line], Array.push_eq_append, fun _ hl => List.mem_singleton.mp hl ▸ h⟩

theorem trans (h : Adds P m n) (h' : Adds P n o) : Adds P m o := by
  obtain ⟨xs, hx, hxs⟩ := h
  obtain ⟨ys, hy, hys⟩ := h'
  refine ⟨xs ++ ys, ?_, fun l hl => (List.mem_append.mp hl).elim (hxs l) (hys l)⟩
  rw [hy, hx, Array.append_assoc, ← List.append_toArray]

theorem mono (h : Adds P m n) (hPQ : ∀ l, P l → Q l) : Adds Q m n := by
  obtain ⟨lines, hn, hP⟩ := h
  exact ⟨lines, hn, fun l hl => hPQ l (hP l hl)⟩

theorem warnings_eq (h : Adds P m n) (hP : ∀ l, P l → l.level ≠ .warn) :
    n.warnings = m.warnings := by
  obtain ⟨lines, hn, hl⟩ := h
  have hnone : lines.filter (fun l => l.level = .warn) = [] :=
    List.filter_eq_nil_iff.mpr fun l hmem hwarn => hP l (hl l hmem) (of_decide_eq_true hwarn)
  unfold warnings
  rw [hn, Array.toList_append, List.filter_append, hnone, List.append_nil]

end Adds

theorem warnings_push {line : LogLine} (h : line.level ≠ .warn) (m : Machine) :
    warnings { m with journal := m.journal.push line } = m.warnings :=
  (Adds.push (P := (· = line)) rfl m).warnings_eq fun _ hl => hl ▸ h

namespace Adds

/-! ### Along a program -/

variable {α β : Type} {P : LogLine → Prop} {m n : Machine} {x : HeapM α} {f : α → HeapM β}

theorem of_ok (h : Adds P m (after x m)) {r : α} (hr : x m = .ok r n) : Adds P m n := by
  unfold after at h
  rwa [hr] at h

theorem of_error (h : Adds P m (after x m)) {e : Fault} (hr : x m = .error e n) :
    Adds P m n := by
  unfold after at h
  rwa [hr] at h

/-- What follows writes from where the first part left off. -/
theorem bind (hx : Adds P m (after x m))
    (hf : ∀ r n, x m = .ok r n → Adds P n (after (f r) n)) : Adds P m (after (x >>= f) m) := by
  cases hr : x m with
  | ok r n =>
    have hn := hf r n hr
    unfold after at hn ⊢
    rw [run_bind_ok hr]
    exact (hx.of_ok hr).trans hn
  | error e n =>
    unfold after
    rw [run_bind_error hr]
    exact hx.of_error hr

/-- A handler writes from where its program failed. -/
theorem tryCatch {handle : Fault → HeapM α} (hx : Adds P m (after x m))
    (hh : ∀ e n, x m = .error e n → Adds P n (after (handle e) n)) :
    Adds P m (after (tryCatch x handle) m) := by
  cases hr : x m with
  | ok r n =>
    unfold after
    rw [run_tryCatch_ok hr]
    exact hx.of_ok hr
  | error e n =>
    have hn := hh e n hr
    unfold after at hn ⊢
    rw [run_tryCatch_error hr]
    exact (hx.of_error hr).trans hn

end Adds

/-! ## Programs that write lines of a kind -/

/-- A program that writes lines of a kind and no others, wherever it runs. -/
def Writes {α : Type} (P : LogLine → Prop) (x : HeapM α) : Prop := ∀ m, Adds P m (after x m)

namespace Writes

variable {α β : Type} {P Q : LogLine → Prop} {x : HeapM α}

theorem mono (h : Writes P x) (hPQ : ∀ l, P l → Q l) : Writes Q x := fun m => (h m).mono hPQ

theorem pure (r : α) : Writes P (Pure.pure r) := Adds.refl

theorem throw (e : Fault) : Writes P (throw e : HeapM α) := Adds.refl

theorem throw_bind (e : Fault) (f : α → HeapM β) :
    Writes P ((MonadExcept.throw e : HeapM α) >>= f) := Adds.refl

theorem lift (x : Except Fault α) : Writes P (liftM x : HeapM α) := by
  intro m
  cases x with
  | ok r => exact .refl m
  | error e => exact .refl m

/-- Programs that write lines of a kind may follow each other. -/
theorem bind {f : α → HeapM β} (hx : Writes P x) (hf : ∀ r, Writes P (f r)) :
    Writes P (x >>= f) :=
  fun m => (hx m).bind fun r n _ => hf r n

theorem get {f : Machine → HeapM α} (h : ∀ m, Writes P (f m)) : Writes P (get >>= f) :=
  fun m => h m m

theorem ite {c : Prop} [Decidable c] {y : HeapM α} (hx : Writes P x) (hy : Writes P y) :
    Writes P (if c then x else y) := by
  split
  · exact hx
  · exact hy

theorem forM {γ : Type} {xs : List γ} {body : γ → HeapM Unit} (h : ∀ y ∈ xs, Writes P (body y)) :
    Writes P (xs.forM body) := by
  induction xs with
  | nil => exact .pure _
  | cons y ys ih =>
    exact .bind (h y List.mem_cons_self) fun _ => ih fun z hz => h z (List.mem_cons_of_mem y hz)

/-! ### Changes of parts -/

theorem log {line : LogLine} (h : P line) : Writes P (log line) := Adds.push h

theorem record (e : Event) : Writes P (record e) := fun _ => .of_eq rfl

theorem modifyPlatform (f : Platform → Platform) : Writes P (modifyPlatform f) :=
  fun _ => .of_eq rfl

theorem onArena (x : ArenaM α) : Writes P (onArena x) := by
  intro m
  apply Adds.of_eq
  unfold Machine.onArena after
  dsimp only
  cases x m.arena with
  | ok r a => rfl
  | error e a => rfl

end Writes

/-! ## The top moves -/

section Top

variable {P : LogLine → Prop}

theorem writes_allocateFrame : Writes P (allocateFrame .none) := by
  refine .bind (.pure ()) fun _ => .get fun m => ?_
  cases m.platform.frames with
  | nil => exact .bind (.record _) fun _ => .pure none
  | cons f rest =>
    exact .bind (.record _) fun _ => .bind (.modifyPlatform _) fun _ => .pure (some f)

theorem writes_mapPage (index frame : Nat) : Writes P (mapPage .none index frame) :=
  .bind (.pure ()) fun _ => .get fun _ => .bind (.record _) fun _ =>
    .bind (.modifyPlatform _) fun _ => .get fun _ => .onArena _

theorem writes_unmapPage (index : Nat) : Writes P (unmapPage .none index) :=
  .bind (.pure ()) fun _ => .get fun _ => .bind (.record _) fun _ => .get fun _ =>
    .bind (.modifyPlatform _) fun _ => .pure _

theorem writes_releaseFrame (frame : Nat) : Writes P (releaseFrame .none frame) :=
  .bind (.pure ()) fun _ => .bind (.record _) fun _ => .modifyPlatform _

end Top

theorem writes_mapPages (newTop index count : Nat) :
    Writes LogLine.OfPage (mapPages .none newTop index count) := by
  induction count generalizing index with
  | zero => exact .pure ()
  | succ count ih =>
    unfold mapPages
    refine .get fun m => .bind (.lift _) fun page => .bind writes_allocateFrame fun given => ?_
    cases given with
    | none => exact .throw _
    | some frame =>
      exact .bind (.log (.mapped page frame)) fun _ => .bind (writes_mapPage index frame) fun _ =>
        .bind (.lift _) fun _ => .bind (.onArena _) fun _ => .bind (.lift _) fun _ =>
        .bind (.lift _) fun _ => .bind (.onArena _) fun _ => ih (index + 1)

theorem writes_unmapPages (stop count : Nat) :
    Writes LogLine.OfPage (unmapPages .none stop count) := by
  induction count generalizing stop with
  | zero => exact .pure ()
  | succ count ih =>
    unfold unmapPages
    refine .get fun m => .bind (.lift _) fun page => .bind (.log (.unmapped page)) fun _ =>
      .bind (writes_unmapPage (stop - 1)) fun frame => ?_
    cases frame with
    | none => exact ih (stop - 1)
    | some frame => exact .bind (writes_releaseFrame frame) fun _ => ih (stop - 1)

theorem writes_moveTop (newTop : Nat) : Writes LogLine.OfPage (moveTop .none newTop) := by
  unfold moveTop
  refine .get fun m => ?_
  dsimp only
  refine .ite (.throw_bind _ _) (.ite (.throw_bind _ _) (.ite ?_ (.ite ?_ ?_)))
  · exact .bind (writes_mapPages _ _ _) fun _ => .bind (.onArena _) fun _ => .pure _
  · exact .bind (.onArena _) fun _ => .bind (writes_unmapPages _ _) fun _ =>
      .bind (.onArena _) fun _ => .pure _
  · exact .bind (writes_unmapPages _ _) fun _ => .bind (.onArena _) fun _ => .pure _

/-! ## The end of the list -/

/-- The heap grows to a top below the reserved maximum. -/
theorem adds_extend (size : Nat) (m : Machine) :
    Adds (LogLine.OfRoom m.arena) m (after (extend .none size) m) := by
  have hmove (newTop : Nat) : Writes (LogLine.OfRoom m.arena) (moveTop .none newTop) :=
    (writes_moveTop newTop).mono fun _ => .page
  unfold extend
  refine Adds.bind (.refl m) ?_
  rintro _ _ ⟨⟩
  refine Writes.bind (.lift _) (fun last => ?_) m
  dsimp only
  refine .ite (.throw_bind _ _) ?_
  split
  · exact .bind (.lift _) fun _ => .throw_bind _ _
  · rename_i hfits
    have hle : topFor m.arena.top size last ≤ m.arena.window.ceiling := by
      simpa [Arena.admits] using hfits
    refine .bind (.log (.grown hle)) fun _ => .bind (hmove _) fun _ => .ite ?_ ?_
    · exact .bind (.onArena _) fun _ => .pure _
    · exact .bind (.onArena _) fun _ => .pure _

theorem writes_trim (off : Nat) : Writes LogLine.OfPage (trim .none off) := by
  unfold trim
  refine .get fun m => ?_
  dsimp only
  refine .ite (.bind (.lift _) fun h => ?_) (.pure _)
  refine .ite (.throw_bind _ _) (.ite (.bind (.lift _) fun prev => ?_) ?_)
  · cases prev with
    | none => exact .throw _
    | some prev =>
      exact .bind (.lift _) fun _ => .bind (.onArena _) fun _ =>
        .bind (writes_moveTop _) fun _ => .pure _
  · refine .bind (.lift _) fun payload => .bind (.lift _) fun stop => .ite ?_ (.pure _)
    exact .bind (.onArena _) fun _ => .bind (writes_moveTop _) fun _ => .pure _

/-! ## Taking blocks back -/

theorem writes_releaseSegment (off : Nat) (site : CallSite) :
    Writes LogLine.OfPage (releaseSegment .none off site) := by
  unfold releaseSegment
  refine .get fun m => .bind (.lift _) fun h => .ite (.throw_bind _ _) ?_
  exact .bind (.lift _) fun _ => .bind (.lift _) fun _ => .bind (.lift _) fun _ =>
    .bind (.onArena _) fun merged => .bind (writes_trim merged) fun _ => .get fun _ =>
    .bind (.lift _) fun _ => .pure _

theorem writes_shrink (off size : Nat) : Writes LogLine.OfPage (shrink .none off size) := by
  unfold shrink
  refine .bind (.onArena _) fun tail => ?_
  cases tail with
  | none => exact .pure _
  | some tail => exact .bind (.onArena _) fun merged => writes_trim merged

/-! ## The search -/

theorem adds_search (size : Nat) (m : Machine) :
    Adds (LogLine.OfRoom m.arena) m (after (search size) m) := by
  unfold search
  refine Adds.bind (.refl m) ?_
  rintro _ _ ⟨⟩
  refine Writes.bind (.forM fun s hs => ?_) (fun _ => .lift _) m
  exact .log (.visited (Arena.lookedAt_subset size _ hs))

end Machine

end GuardedHeap
