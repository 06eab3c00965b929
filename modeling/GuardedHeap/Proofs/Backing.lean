/-
  Proofs/Backing.lean --- the pages below the top.

  WHAT THIS FILE IS FOR.  Moving the top maps and unmaps pages.  The steps here
  are followed one page at a time: what a page that is mapped or unmapped does to
  the page table, to the frames and to the events, and what a whole move makes of
  that, to any top inside the limits and from any state in which the pages below
  the top are mapped and the rest of the last page is clear.

  WHAT IS PROVED.  A move succeeds or runs out of frames, and nothing else; it
  succeeds exactly if there is a frame for every page it has to map.  Both ways
  exactly the pages below the new top are mapped, bytes below both tops stay as they
  were, and all bytes from there to the end of the last page are clear.  Pages come
  and go in the order of a stack, the reserved ones never go, and no frame is lost or
  given back twice.
-/
import GuardedHeap.Proofs.Tiling.Edit
import Mathlib.Data.List.Basic

set_option autoImplicit false

namespace GuardedHeap

/-! ## Pages and frames -/

/-- Exactly the first `count` pages are mapped. -/
def Platform.Maps (p : Platform) (count : Nat) : Prop :=
  ∀ i, (p.pages.get? i).isSome = true ↔ i < count

/-- The frames that back the first `count` pages. -/
def Platform.grown (p : Platform) (count : Nat) : List Nat :=
  (List.range count).filterMap fun i => (p.pages.get? i).join

/-- What an event makes of the number of mapped pages, where `first` is the
number of the first page and `low` counts the reserved ones.  Only the page
behind the mapped ones may be mapped, and only the last of them that is not
reserved may be unmapped. -/
def Event.follow (first low count : Nat) : Event → Option Nat
  | .map page _ => if page = first + count then some (count + 1) else none
  | .unmap page => if low < count ∧ page + 1 = first + count then some (count - 1) else none
  | _ => some count

/-- The number of mapped pages after events in order, `none` if one of them was
out of turn. -/
def replay (first low count : Nat) (es : List Event) : Option Nat :=
  es.foldlM (Event.follow first low) count

theorem replay_append {first low count count' : Nat} {es es' : List Event}
    (h : replay first low count es = some count') :
    replay first low count (es ++ es') = replay first low count' es' := by
  unfold replay at *
  rw [List.foldlM_append, h]
  rfl

theorem Platform.grown_congr {p p' : Platform} {count : Nat}
    (h : ∀ i, i < count → p'.pages.get? i = p.pages.get? i) : p'.grown count = p.grown count := by
  unfold Platform.grown
  apply List.filterMap_congr
  intro i hi
  rw [h i (List.mem_range.mp hi)]

theorem Platform.grown_succ (p : Platform) (count : Nat) :
    p.grown (count + 1) = p.grown count ++ (p.pages.get? count).join.toList := by
  unfold Platform.grown
  rw [List.range_succ, List.filterMap_append]
  congr 1

namespace Machine

/-- Pages that are backed from the start. -/
def reserved (m : Machine) : Nat := m.arena.window.floor / pageSize

/-- All parts of a machine that work on its segments has no business with. -/
structure Around (m m' : Machine) : Prop where
  window_eq : m'.arena.window = m.arena.window
  lock_eq : m'.lock = m.lock
  tracing_eq : m'.tracing = m.tracing
  installed_eq : m'.installed = m.installed
  context_eq : m'.context = m.context
  keepFrames_eq : m'.platform.keepFrames = m.platform.keepFrames

theorem Around.refl (m : Machine) : m.Around m := ⟨rfl, rfl, rfl, rfl, rfl, rfl⟩

theorem Around.trans {m n o : Machine} (h : m.Around n) (h' : n.Around o) : m.Around o where
  window_eq := h'.window_eq.trans h.window_eq
  lock_eq := h'.lock_eq.trans h.lock_eq
  tracing_eq := h'.tracing_eq.trans h.tracing_eq
  installed_eq := h'.installed_eq.trans h.installed_eq
  context_eq := h'.context_eq.trans h.context_eq
  keepFrames_eq := h'.keepFrames_eq.trans h.keepFrames_eq

theorem payload_of_around {m n : Machine} (h : m.Around n) (off : Nat) :
    m.arena.payload off = n.arena.payload off := by
  unfold Arena.payload Arena.addr
  rw [h.window_eq]

/-- All parts of a machine that a move of the top has no business with. -/
structure Beside (m m' : Machine) : Prop extends Around m m' where
  last_eq : m'.arena.last = m.arena.last

theorem Beside.refl (m : Machine) : m.Beside m := ⟨Around.refl m, rfl⟩

theorem Beside.trans {m n o : Machine} (h : m.Beside n) (h' : n.Beside o) : m.Beside o :=
  ⟨h.toAround.trans h'.toAround, h'.last_eq.trans h.last_eq⟩

/-- The first `count` pages of a machine were mapped, and now the first `count'`
are: in turn, with the reserved ones untouched and every frame in its place. -/
structure Repaged (count count' : Nat) (m m' : Machine) : Prop where
  beside : m.Beside m'
  mapped : m.platform.Maps count → m'.platform.Maps count'
  kept : ∀ i, i < m.reserved → m'.platform.pages.get? i = m.platform.pages.get? i
  conserved : m.platform.keepFrames = false →
    (m'.platform.frames ++ m'.platform.grown count').Perm
      (m.platform.frames ++ m.platform.grown count)
  replayed : ∃ es, m'.events.toList = m.events.toList ++ es ∧
    replay (m.pageNumber 0) m.reserved count es = some count'

theorem Repaged.refl (count : Nat) (m : Machine) : m.Repaged count count m :=
  ⟨Beside.refl m, id, fun _ _ => rfl, fun _ => List.Perm.refl _, [], by simp, rfl⟩

theorem Repaged.trans {m n o : Machine} {i j k : Nat} (h : m.Repaged i j n)
    (h' : n.Repaged j k o) : m.Repaged i k o := by
  have hres : n.reserved = m.reserved := by
    unfold reserved
    rw [h.beside.window_eq]
  have hpage : n.pageNumber 0 = m.pageNumber 0 := by
    unfold pageNumber
    rw [h.beside.window_eq]
  refine ⟨h.beside.trans h'.beside, fun hm => h'.mapped (h.mapped hm), ?_,
    ?_, ?_⟩
  · intro x hx
    exact (h'.kept x (by rw [hres]; exact hx)).trans (h.kept x hx)
  · intro hk
    exact (h'.conserved (h.beside.keepFrames_eq.trans hk)).trans (h.conserved hk)
  · obtain ⟨es, hes, hr⟩ := h.replayed
    obtain ⟨es', hes', hr'⟩ := h'.replayed
    refine ⟨es ++ es', by rw [hes', hes, List.append_assoc], ?_⟩
    rw [replay_append hr]
    rwa [hres, hpage] at hr'

/-! ## One page -/

/-- The machine after a page was mapped on the way to a top at `newTop`. -/
def withPage (m : Machine) (newTop index frame : Nat) (rest : List Nat) : Machine :=
  { m with
    arena :=
      { m.arena with
        memory := (m.arena.memory.fill (index * pageSize) m.platform.staleByte pageSize).zero
          (index * pageSize) pageSize
        top := min newTop ((index + 1) * pageSize) }
    platform :=
      { m.platform with frames := rest, pages := m.platform.pages.insert index (some frame) }
    journal := m.journal.push (.mapPage (m.pageNumber index) frame)
    events := (m.events.push (.frame (some frame))).push (.map (m.pageNumber index) frame) }

/-- The frame that unmapping a page hands back. -/
def freed (m : Machine) (index : Nat) : Option Nat :=
  if m.platform.keepFrames then none else (m.platform.pages.get? index).join

/-- The machine after a page was unmapped and its frame, if it was handed back,
given back. -/
def withoutPage (m : Machine) (index : Nat) : Machine :=
  { m with
    platform :=
      { m.platform with
        frames := (m.freed index).toList ++ m.platform.frames
        pages := m.platform.pages.erase index }
    journal := m.journal.push (.unmapPage (m.pageNumber index))
    events :=
      match m.freed index with
      | none => m.events.push (.unmap (m.pageNumber index))
      | some frame => (m.events.push (.unmap (m.pageNumber index))).push (.release frame) }

theorem pageNumber?_eq {m : Machine} {index : Nat}
    (h : index * pageSize ≤ m.arena.window.ceiling) :
    m.pageNumber? index = .ok (m.pageNumber index) := by
  refine Word.add_eq_ok.mpr ⟨rfl, ?_⟩
  have hfits := m.arena.window.fits
  simp only [pageOf, pageSize] at *
  omega

theorem page_bounds {w : Window} {index : Nat} (h : (index + 1) * pageSize ≤ w.ceiling) :
    index * pageSize ≤ w.ceiling ∧ Word.mul index pageSize = .ok (index * pageSize) ∧
      Word.add index 1 = .ok (index + 1) ∧
      Word.mul (index + 1) pageSize = .ok ((index + 1) * pageSize) := by
  have hfits := w.fits
  have hlow : index * pageSize ≤ (index + 1) * pageSize :=
    Nat.mul_le_mul_right pageSize (Nat.le_succ index)
  have hnext : index + 1 ≤ (index + 1) * pageSize := Nat.le_mul_of_pos_right _ (by decide)
  exact ⟨Nat.le_trans hlow h, Word.mul_eq_ok.mpr ⟨rfl, by omega⟩,
    Word.add_eq_ok.mpr ⟨rfl, by omega⟩, Word.mul_eq_ok.mpr ⟨rfl, by omega⟩⟩

theorem run_mapPages_cons {m : Machine} {newTop index count frame : Nat} {rest : List Nat}
    (hw : (index + 1) * pageSize ≤ m.arena.window.ceiling)
    (h : m.platform.frames = frame :: rest) :
    mapPages .none newTop index (count + 1) m =
      mapPages .none newTop (index + 1) count (m.withPage newTop index frame rest) := by
  obtain ⟨hlow, hstart, hnext, hstop⟩ := page_bounds hw
  have hpage := pageNumber?_eq hlow
  obtain ⟨arena, lock, tracing, installed, ⟨frames, next, pages, keep, stale⟩, context, patience,
    trap, journal, events⟩ := m
  cases h
  rw [mapPages, run_bind_ok (run_get _), hpage, hstart, hnext]
  show EStateM.bind (liftM (Word.mul (index + 1) pageSize)) _ _ = _
  rw [hstop]
  rfl

theorem run_mapPages_nil {m : Machine} {newTop index count : Nat}
    (hw : index * pageSize ≤ m.arena.window.ceiling) (h : m.platform.frames = []) :
    mapPages .none newTop index (count + 1) m =
      .error (.detected (.outOfFrames (m.pageNumber index)))
        { m with events := m.events.push (.frame none) } := by
  have hpage := pageNumber?_eq hw
  obtain ⟨arena, lock, tracing, installed, ⟨frames, next, pages, keep, stale⟩, context, patience,
    trap, journal, events⟩ := m
  cases h
  rw [mapPages, run_bind_ok (run_get _), hpage]
  rfl

theorem run_unmapPage (m : Machine) (index : Nat) :
    unmapPage .none index m = .ok (m.freed index)
      { m with
        platform := { m.platform with pages := m.platform.pages.erase index }
        events := m.events.push (.unmap (m.pageNumber index)) } := rfl

theorem run_unmapPages_succ {m : Machine} {stop count : Nat}
    (hpage : m.pageNumber? (stop - 1) = .ok (m.pageNumber (stop - 1))) :
    unmapPages .none stop (count + 1) m =
      unmapPages .none (stop - 1) count (m.withoutPage (stop - 1)) := by
  obtain ⟨line, hline⟩ : ∃ line, line = LogLine.unmapPage (m.pageNumber (stop - 1)) := ⟨_, rfl⟩
  have hfreed : freed { m with journal := m.journal.push line } (stop - 1) = m.freed (stop - 1) :=
    rfl
  rw [unmapPages, run_bind_ok (run_get m), hpage, run_bind_ok (run_lift_ok _ _), ← hline,
    run_bind_ok (run_log line m), run_bind_ok (run_unmapPage _ _), hfreed]
  unfold withoutPage
  cases m.freed (stop - 1) with
  | none => rw [hline]; rfl
  | some frame => rw [hline]; rfl

/-- A page that is mapped behind the others. -/
theorem repaged_withPage {m : Machine} {newTop index frame : Nat} {rest : List Nat}
    (h : m.platform.frames = frame :: rest) (hlow : m.reserved ≤ index) :
    m.Repaged index (index + 1) (m.withPage newTop index frame rest) := by
  have hget : ∀ i, (m.withPage newTop index frame rest).platform.pages.get? i =
      if i = index then some (some frame) else m.platform.pages.get? i :=
    fun i => PageTable.get?_insert _ _ _ _
  have hgrown : (m.withPage newTop index frame rest).platform.grown index =
      m.platform.grown index :=
    Platform.grown_congr fun i hi => (hget i).trans (if_neg (by omega))
  refine ⟨Beside.mk ⟨rfl, rfl, rfl, rfl, rfl, rfl⟩ rfl, ?_, ?_, ?_,
    [.frame (some frame), .map (m.pageNumber index) frame], ?_, ?_⟩
  · intro hm i
    rw [hget]
    by_cases hi : i = index
    · rw [if_pos hi]
      simp [hi]
    · rw [if_neg hi, hm i]
      omega
  · intro i hi
    exact (hget i).trans (if_neg (by omega))
  · intro _
    -- the frame moves from the front of the supply behind the frames in use
    rw [Platform.grown_succ, hgrown, hget, if_pos rfl, h]
    show (rest ++ (m.platform.grown index ++ [frame])).Perm (frame :: rest ++ _)
    rw [← List.append_assoc]
    exact List.perm_append_singleton _ _
  · simp [withPage]
  · simp [replay, Event.follow, pageNumber, List.foldlM]

/-- The highest page that is unmapped. -/
theorem repaged_withoutPage {m : Machine} {index : Nat} (hlow : m.reserved ≤ index) :
    m.Repaged (index + 1) index (m.withoutPage index) := by
  have hget : ∀ i, (m.withoutPage index).platform.pages.get? i =
      if i = index then none else m.platform.pages.get? i :=
    fun i => PageTable.get?_erase _ _ _
  have hgrown : (m.withoutPage index).platform.grown index = m.platform.grown index :=
    Platform.grown_congr fun i hi => (hget i).trans (if_neg (by omega))
  have hturn : Event.follow (m.pageNumber 0) m.reserved (index + 1)
      (.unmap (m.pageNumber index)) = some index := by
    refine (if_pos ⟨by omega, ?_⟩).trans rfl
    simp only [pageNumber]
    omega
  refine ⟨Beside.mk ⟨rfl, rfl, rfl, rfl, rfl, rfl⟩ rfl, ?_, ?_, ?_,
    .unmap (m.pageNumber index) :: (m.freed index).toList.map .release, ?_, ?_⟩
  · intro hm i
    rw [hget]
    by_cases hi : i = index
    · rw [if_pos hi]
      simp [hi]
    · rw [if_neg hi, hm i]
      omega
  · intro i hi
    exact (hget i).trans (if_neg (by omega))
  · intro hk
    -- the frame moves from behind the frames in use to the front of the supply
    have hfreed : m.freed index = (m.platform.pages.get? index).join := by
      unfold freed
      rw [hk]
      rfl
    rw [hgrown, Platform.grown_succ, ← hfreed]
    show ((m.freed index).toList ++ m.platform.frames ++ _).Perm _
    rw [List.append_assoc, ← List.append_assoc m.platform.frames]
    exact List.perm_append_comm
  · unfold withoutPage
    cases m.freed index <;> simp
  · unfold replay
    rw [List.foldlM_cons, hturn]
    cases m.freed index <;> rfl

end Machine

/-! ## The top -/

theorem top_le_pages (top : Nat) : top ≤ pagesBelow top * pageSize := by
  simp only [pagesBelow, pageSize]
  omega

/-- An arena whose pages below the top, and no others, are mapped, and whose last
page is clear from the top on. -/
structure Arena.Backed (a : Arena) (p : Platform) : Prop where
  floor_le : a.window.floor ≤ a.top
  le_ceiling : a.top ≤ a.window.ceiling
  maps : p.Maps (pagesBelow a.top)
  slack : ∀ i, a.top ≤ i → i < pagesBelow a.top * pageSize → a.memory.get i = 0

theorem Machine.reserved_le {m : Machine} {top : Nat} (h : m.arena.window.floor ≤ top) :
    m.reserved ≤ pagesBelow top := by
  unfold reserved pagesBelow
  exact Nat.div_le_div_right (by omega)

/-- What a move of the top leaves, however it ends. -/
structure Machine.TopMoved (m m' : Machine) : Prop where
  floor_le : m.arena.window.floor ≤ m'.arena.top
  le_ceiling : m'.arena.top ≤ m.arena.window.ceiling
  repaged : m.Repaged (pagesBelow m.arena.top) (pagesBelow m'.arena.top) m'
  below : Agree m.arena.memory m'.arena.memory 0 (min m.arena.top m'.arena.top)
  clear : ∀ i, min m.arena.top m'.arena.top ≤ i → i < pagesBelow m'.arena.top * pageSize →
    m'.arena.memory.get i = 0

namespace Machine.TopMoved

variable {m n o : Machine}

theorem backed (hb : m.arena.Backed m.platform) (h : m.TopMoved n) :
    n.arena.Backed n.platform where
  floor_le := by
    rw [h.repaged.beside.window_eq]
    exact h.floor_le
  le_ceiling := by
    rw [h.repaged.beside.window_eq]
    exact h.le_ceiling
  maps := h.repaged.mapped hb.maps
  slack i hi hj := h.clear i (by omega) hj

theorem refl (hb : m.arena.Backed m.platform) : m.TopMoved m :=
  ⟨hb.floor_le, hb.le_ceiling, Repaged.refl _ m, fun _ _ _ => rfl,
    fun i hi => hb.slack i (by omega)⟩

/-- Moves upwards compose. -/
theorem trans (h : m.TopMoved n) (h' : n.TopMoved o) (hmn : m.arena.top ≤ n.arena.top)
    (hno : n.arena.top ≤ o.arena.top) : m.TopMoved o where
  floor_le := by
    rw [← h.repaged.beside.window_eq]
    exact h'.floor_le
  le_ceiling := by
    rw [← h.repaged.beside.window_eq]
    exact h'.le_ceiling
  repaged := h.repaged.trans h'.repaged
  below i hi hj := (h'.below i hi (by omega)).trans (h.below i hi (by omega))
  clear i hi hj := by
    by_cases hn : i < n.arena.top
    · rw [h'.below i (by omega) (by omega)]
      exact h.clear i (by omega) (Nat.lt_of_lt_of_le hn (top_le_pages _))
    · exact h'.clear i (by omega) hj

end Machine.TopMoved

/-- What is left when the frames run out on the way up to `newTop`: the top is
where it was, or else at the end of the last page that was mapped. -/
structure Machine.Refused (newTop : Nat) (m m' : Machine) : Prop where
  moved : m.TopMoved m'
  le_top : m.arena.top ≤ m'.arena.top
  short : pagesBelow m'.arena.top < pagesBelow newTop
  drained : m'.platform.frames = []
  top_eq : m'.arena.top =
    if pagesBelow m'.arena.top = pagesBelow m.arena.top then m.arena.top
    else pagesBelow m'.arena.top * pageSize

namespace Machine

/-- The page behind the last one is mapped, clear, and the top moves into it. -/
theorem topMoved_withPage {m : Machine} (newTop : Nat) {index frame : Nat} {rest : List Nat}
    (hb : m.arena.Backed m.platform) (hf : m.platform.frames = frame :: rest)
    (hi : pagesBelow m.arena.top = index) (hn : index < pagesBelow newTop)
    (hc : newTop ≤ m.arena.window.ceiling) :
    m.TopMoved (m.withPage newTop index frame rest) ∧
      m.arena.top ≤ (m.withPage newTop index frame rest).arena.top ∧
      pagesBelow (m.withPage newTop index frame rest).arena.top = index + 1 := by
  have htop : (m.withPage newTop index frame rest).arena.top =
      min newTop ((index + 1) * pageSize) := rfl
  have hle := top_le_pages m.arena.top
  have hget : ∀ i, (m.withPage newTop index frame rest).arena.memory.get i =
      if index * pageSize ≤ i ∧ i < index * pageSize + pageSize then 0
      else m.arena.memory.get i := by
    intro i
    simp only [withPage, Memory.get_zero, Memory.get_fill]
    by_cases hin : index * pageSize ≤ i ∧ i < index * pageSize + pageSize
    · rw [if_pos hin, if_pos hin]
    · rw [if_neg hin, if_neg hin, if_neg hin]
  have hpages : pagesBelow (m.withPage newTop index frame rest).arena.top = index + 1 := by
    rw [htop]
    simp only [pagesBelow, pageSize] at *
    omega
  have hup : m.arena.top ≤ (m.withPage newTop index frame rest).arena.top := by
    rw [htop]
    simp only [pagesBelow, pageSize] at *
    omega
  have hfloor := hb.floor_le
  refine ⟨⟨by omega, by omega, ?_, ?_, ?_⟩, hup, hpages⟩
  · rw [hpages, hi]
    exact repaged_withPage hf (hi ▸ reserved_le hb.floor_le)
  · intro i _ hj
    rw [hget, if_neg]
    rw [hi] at hle
    simp only [pagesBelow, pageSize] at *
    omega
  · intro i h1 h2
    rw [hpages, Nat.succ_mul] at h2
    rw [hget]
    by_cases hin : index * pageSize ≤ i ∧ i < index * pageSize + pageSize
    · exact if_pos hin
    · refine (if_neg hin).trans (hb.slack i (by omega) ?_)
      rw [hi]
      exact Nat.lt_of_not_le fun hle => hin ⟨hle, h2⟩

/-- Mapping pages succeeds or runs out of frames. -/
theorem mapPages_cases {m : Machine} {newTop index count : Nat}
    (hb : m.arena.Backed m.platform) (hi : pagesBelow m.arena.top = index)
    (hn : pagesBelow newTop = index + count) (hc : newTop ≤ m.arena.window.ceiling)
    (hlast : count = 0 → m.arena.top = newTop) :
    (∃ m', mapPages .none newTop index count m = .ok () m' ∧ m.TopMoved m' ∧
        m.arena.top ≤ newTop ∧ m'.arena.top = newTop) ∨
      ∃ m', mapPages .none newTop index count m =
          .error (.detected (.outOfFrames (m.pageNumber (pagesBelow m'.arena.top)))) m' ∧
        m.Refused newTop m' := by
  induction count generalizing m index with
  | zero => exact Or.inl ⟨m, rfl, TopMoved.refl hb, Nat.le_of_eq (hlast rfl), hlast rfl⟩
  | succ count ih =>
    cases hf : m.platform.frames with
    | nil =>
      subst hi
      refine Or.inr ⟨{ m with events := m.events.push (.frame none) },
        run_mapPages_nil (Window.pagesBelow_mul_le hb.le_ceiling) hf, ?_⟩
      refine ⟨⟨hb.floor_le, hb.le_ceiling, ?_, fun _ _ _ => rfl,
          fun i hi => hb.slack i (Nat.le_trans (Nat.le_of_eq (Nat.min_self _).symm) hi)⟩,
        Nat.le_refl _, ?_, hf, (if_pos rfl).symm⟩
      · exact ⟨Beside.mk ⟨rfl, rfl, rfl, rfl, rfl, rfl⟩ rfl, id, fun _ _ => rfl,
          fun _ => List.Perm.refl _, [.frame none], by simp, rfl⟩
      · rw [hn]
        exact Nat.lt_add_of_pos_right (Nat.succ_pos count)
    | cons frame rest =>
      obtain ⟨hmoved, hup, hpages⟩ :=
        topMoved_withPage newTop hb hf hi (by omega) hc
      have htop : (m.withPage newTop index frame rest).arena.top =
        min newTop ((index + 1) * pageSize) := rfl
      have hcover := top_le_pages newTop
      have hend : count = 0 → (m.withPage newTop index frame rest).arena.top = newTop := by
        intro h0
        rw [hn, h0] at hcover
        exact htop.trans (Nat.min_eq_left hcover)
      have hpage : (index + 1) * pageSize ≤ m.arena.window.ceiling :=
        Nat.le_trans (Nat.mul_le_mul_right _ (by omega)) (Window.pagesBelow_mul_le hc)
      rw [run_mapPages_cons hpage hf]
      rcases ih (hmoved.backed hb) hpages (by omega) hc hend with
        ⟨m', hrun, hmoved', hle, hend⟩ | ⟨m', hrun, hrefused⟩
      · exact Or.inl ⟨m', hrun, hmoved.trans hmoved' hup (by omega), by omega, hend⟩
      · refine Or.inr ⟨m', hrun, ?_⟩
        have hle := hrefused.le_top
        have hshort := hrefused.short
        refine ⟨hmoved.trans hrefused.moved hup hle, by omega, hshort, hrefused.drained, ?_⟩
        have hmore : index + 1 ≤ pagesBelow m'.arena.top := by
          rw [← hpages]
          exact Nat.div_le_div_right (by omega)
        have heq := hrefused.top_eq
        rw [hpages] at heq
        rw [if_neg (by omega)]
        split at heq
        · rename_i hone
          rw [hone, heq, htop]
          simp only [pagesBelow, pageSize] at *
          omega
        · exact heq

/-- Unmapping pages always succeeds. -/
theorem run_unmapPages {m : Machine} {stop count : Nat} (hle : count ≤ stop)
    (hlow : m.reserved ≤ stop - count) (hhigh : stop * pageSize ≤ m.arena.window.ceiling) :
    ∃ m', unmapPages .none stop count m = .ok () m' ∧ m'.arena = m.arena ∧
      m.Repaged stop (stop - count) m' := by
  induction count generalizing m stop with
  | zero => exact ⟨m, rfl, rfl, Repaged.refl _ m⟩
  | succ count ih =>
    obtain ⟨index, rfl⟩ : ∃ index, stop = index + 1 := ⟨stop - 1, by omega⟩
    have hfew : count ≤ index := by omega
    have hrest : (m.withoutPage index).reserved ≤ index - count := by
      rw [← Nat.add_sub_add_right index 1 count]
      exact hlow
    have hpage : index * pageSize ≤ m.arena.window.ceiling :=
      Nat.le_trans (Nat.mul_le_mul_right pageSize (Nat.le_succ index)) hhigh
    have hnumber := pageNumber?_eq hpage
    obtain ⟨m', hrun, harena, hpages⟩ := ih hfew hrest hpage
    refine ⟨m', ?_, harena, ?_⟩
    · rw [run_unmapPages_succ hnumber]
      exact hrun
    · rw [Nat.add_sub_add_right]
      exact (repaged_withoutPage (by omega)).trans hpages

/-- Unmapping the pages above a lower top, once what lies above it was cleared. -/
theorem topMoved_unmapPages {m : Machine} {newTop : Nat} (memory : Memory)
    (htop : m.arena.top ≤ m.arena.window.ceiling)
    (hlo : m.arena.window.floor ≤ newTop) (hhi : newTop ≤ m.arena.window.ceiling)
    (hpages : pagesBelow newTop ≤ pagesBelow m.arena.top)
    (hbelow : Agree m.arena.memory memory 0 (min m.arena.top newTop))
    (hclear : ∀ i, min m.arena.top newTop ≤ i → i < pagesBelow newTop * pageSize →
      memory.get i = 0) :
    ∃ m', unmapPages .none (pagesBelow m.arena.top) (pagesBelow m.arena.top - pagesBelow newTop)
        { m with arena := { m.arena with memory := memory } } = .ok () m' ∧
      m.TopMoved { m' with arena := { m'.arena with top := newTop } } := by
  have hres : m.reserved ≤
      pagesBelow m.arena.top - (pagesBelow m.arena.top - pagesBelow newTop) := by
    rw [Nat.sub_sub_self hpages]
    exact reserved_le hlo
  obtain ⟨m', hrun, harena, hrepaged⟩ := run_unmapPages
    (m := { m with arena := { m.arena with memory := memory } }) (Nat.sub_le _ _) hres
    (Window.pagesBelow_mul_le htop)
  rw [Nat.sub_sub_self hpages] at hrepaged
  obtain ⟨⟨⟨hw, hlock, htracing, hinstalled, hcontext, hkeep⟩, hl⟩, hmapped, hkept, hconserved,
    hreplayed⟩ := hrepaged
  have hmem : m'.arena.memory = memory := by rw [harena]
  refine ⟨m', hrun, hlo, hhi, ⟨⟨⟨hw, hlock, htracing, hinstalled, hcontext, hkeep⟩, hl⟩, hmapped,
    hkept, hconserved, hreplayed⟩, ?_, ?_⟩
  · show Agree m.arena.memory m'.arena.memory 0 (min m.arena.top newTop)
    rw [hmem]
    exact hbelow
  · show ∀ i, min m.arena.top newTop ≤ i → i < pagesBelow newTop * pageSize →
      m'.arena.memory.get i = 0
    rw [hmem]
    exact hclear

/-- Moving the top to any place inside the limits succeeds or runs out of frames. -/
theorem moveTop_cases {m : Machine} {newTop : Nat} (hb : m.arena.Backed m.platform)
    (hlo : m.arena.window.floor ≤ newTop) (hhi : newTop ≤ m.arena.window.ceiling) :
    (∃ m', moveTop .none newTop m = .ok m.arena.top m' ∧ m'.arena.top = newTop ∧
        m.TopMoved m') ∨
      ∃ m', moveTop .none newTop m =
          .error (.detected (.outOfFrames (m.pageNumber (pagesBelow m'.arena.top)))) m' ∧
        m.Refused newTop m' := by
  unfold moveTop
  rw [run_bind_ok (run_get m)]
  dsimp only
  rw [if_neg (Nat.not_lt.mpr hhi), if_neg (Nat.not_lt.mpr hlo)]
  by_cases hgrow : pagesBelow m.arena.top < pagesBelow newTop
  · rw [if_pos hgrow]
    have hcount : pagesBelow newTop =
        pagesBelow m.arena.top + (pagesBelow newTop - pagesBelow m.arena.top) := by omega
    rcases mapPages_cases hb rfl hcount hhi (by omega) with
      ⟨m', hrun, hmoved, -, htop⟩ | ⟨m', hrun, hrefused⟩
    · refine Or.inl ⟨m', ?_, htop, hmoved⟩
      rw [run_bind_ok hrun, run_bind_ok (run_onArena_ok (Arena.run_setTop newTop _)), ← htop]
      rfl
    · exact Or.inr ⟨m', run_bind_error hrun, hrefused⟩
  · have hpages := Nat.le_of_not_lt hgrow
    rw [if_neg hgrow]
    refine Or.inl ?_
    by_cases hlower : newTop < m.arena.top
    · obtain ⟨m', hrun, hmoved⟩ := topMoved_unmapPages
        (m.arena.memory.zero newTop (m.arena.top - newTop)) hb.le_ceiling hlo hhi hpages
        (Agree.zero _ (by omega)) fun i hi hj => by
          rw [Memory.get_zero]
          by_cases hin : newTop ≤ i ∧ i < newTop + (m.arena.top - newTop)
          · exact if_pos hin
          · refine (if_neg hin).trans (hb.slack i (by omega) (Nat.lt_of_lt_of_le hj ?_))
            exact Nat.mul_le_mul_right _ hpages
      refine ⟨_, ?_, rfl, hmoved⟩
      rw [if_pos hlower, run_bind_ok (run_onArena_ok (Arena.run_clear _ _ _)), run_bind_ok hrun,
        run_bind_ok (run_onArena_ok (Arena.run_setTop newTop _))]
      rfl
    · obtain ⟨m', hrun, hmoved⟩ := topMoved_unmapPages m.arena.memory hb.le_ceiling hlo
        hhi hpages (fun _ _ _ => rfl) fun i hi hj =>
          hb.slack i (by omega) (Nat.lt_of_lt_of_le hj (Nat.mul_le_mul_right _ hpages))
      refine ⟨_, ?_, rfl, hmoved⟩
      rw [if_neg hlower]
      dsimp only
      rw [run_bind_ok hrun, run_bind_ok (run_onArena_ok (Arena.run_setTop newTop _))]
      rfl

/-! ## Whether there are enough frames -/

/-- A machine can take its top up to a place: it is not above the reserved maximum, and
there is a frame for every page in between. -/
structure Affords (m : Machine) (top : Nat) : Prop where
  le_ceiling : top ≤ m.arena.window.ceiling
  frames : pagesBelow top - pagesBelow m.arena.top ≤ m.platform.frames.length

/-- Mapping pages takes one frame for each, and fails only for want of one. -/
theorem ends_mapPages_frames {m : Machine} {newTop index count : Nat}
    (hw : (index + count) * pageSize ≤ m.arena.window.ceiling) :
    Ends (fun _ _ => count ≤ m.platform.frames.length)
      (fun _ _ => m.platform.frames.length < count) (mapPages .none newTop index count m) := by
  induction count generalizing m index with
  | zero => exact Nat.zero_le _
  | succ count ih =>
    have hpage : (index + 1) * pageSize ≤ m.arena.window.ceiling :=
      Nat.le_trans (Nat.mul_le_mul_right _ (by omega)) hw
    cases hf : m.platform.frames with
    | nil =>
      rw [run_mapPages_nil (Nat.le_trans (Nat.mul_le_mul_right _ (Nat.le_succ index)) hpage) hf]
      exact Nat.succ_pos count
    | cons frame rest =>
      rw [run_mapPages_cons hpage hf]
      have hrest : (index + 1 + count) * pageSize ≤
          (m.withPage newTop index frame rest).arena.window.ceiling := by
        rw [Nat.add_right_comm, Nat.add_assoc]
        exact hw
      exact (ih hrest).mono (fun _ _ h => Nat.succ_le_succ h) fun _ _ h => Nat.succ_lt_succ h

/-- So a move of the top succeeds exactly where there are frames for the pages it needs. -/
theorem ends_moveTop_frames {m : Machine} {newTop : Nat} (hb : m.arena.Backed m.platform)
    (hlo : m.arena.window.floor ≤ newTop) (hhi : newTop ≤ m.arena.window.ceiling) :
    Ends (fun _ _ => pagesBelow newTop - pagesBelow m.arena.top ≤ m.platform.frames.length)
      (fun _ _ => m.platform.frames.length < pagesBelow newTop - pagesBelow m.arena.top)
      (moveTop .none newTop m) := by
  by_cases hgrow : pagesBelow m.arena.top < pagesBelow newTop
  · have hpages : (pagesBelow m.arena.top + (pagesBelow newTop - pagesBelow m.arena.top)) *
        pageSize ≤ m.arena.window.ceiling := by
      rw [Nat.add_sub_cancel' (Nat.le_of_lt hgrow)]
      exact Window.pagesBelow_mul_le hhi
    unfold moveTop
    rw [run_bind_ok (run_get m)]
    dsimp only
    rw [if_neg (Nat.not_lt.mpr hhi), if_neg (Nat.not_lt.mpr hlo), if_pos hgrow]
    exact Ends.bind (ends_mapPages_frames hpages) fun _ _ h => h
  · rcases moveTop_cases hb hlo hhi with ⟨m', hrun, -, -⟩ | ⟨m', -, hrefused⟩
    · rw [hrun]
      exact Nat.le_trans (Nat.le_of_eq (Nat.sub_eq_zero_of_le (Nat.le_of_not_lt hgrow)))
        (Nat.zero_le _)
    · have hup : pagesBelow m.arena.top ≤ pagesBelow m'.arena.top :=
        Nat.div_le_div_right (Nat.add_le_add_right hrefused.le_top _)
      exact absurd (Nat.lt_of_le_of_lt hup hrefused.short) hgrow

/-! ## The journal does not matter -/

section Journal

variable {m m' : Machine} {journal : Array LogLine}

theorem Repaged.of_journal {count count' : Nat}
    (h : Repaged count count' { m with journal := journal } m') : m.Repaged count count' m' := by
  obtain ⟨⟨⟨hw, hlock, htracing, hinstalled, hcontext, hkeep⟩, hlast⟩, hmapped, hkept, hconserved,
    hreplayed⟩ := h
  exact ⟨⟨⟨hw, hlock, htracing, hinstalled, hcontext, hkeep⟩, hlast⟩, hmapped, hkept, hconserved,
    hreplayed⟩

theorem TopMoved.of_journal (h : TopMoved { m with journal := journal } m') : m.TopMoved m' :=
  ⟨h.floor_le, h.le_ceiling, h.repaged.of_journal, h.below, h.clear⟩

theorem Refused.of_journal {newTop : Nat} (h : Refused newTop { m with journal := journal } m') :
    m.Refused newTop m' :=
  ⟨h.moved.of_journal, h.le_top, h.short, h.drained, h.top_eq⟩

end Journal

/-- Moving the top down always succeeds. -/
theorem run_moveTop_down {m : Machine} {newTop : Nat} (hb : m.arena.Backed m.platform)
    (hlo : m.arena.window.floor ≤ newTop) (hdown : newTop ≤ m.arena.top) :
    ∃ m', moveTop .none newTop m = .ok m.arena.top m' ∧ m'.arena.top = newTop ∧
      m.TopMoved m' := by
  rcases moveTop_cases hb hlo (Nat.le_trans hdown hb.le_ceiling) with h | ⟨m', -, hr⟩
  · exact h
  · have hup : pagesBelow newTop ≤ pagesBelow m'.arena.top :=
      Nat.div_le_div_right (Nat.add_le_add_right (Nat.le_trans hdown hr.le_top) _)
    exact absurd hr.short (Nat.not_lt.mpr hup)

end Machine

end GuardedHeap
