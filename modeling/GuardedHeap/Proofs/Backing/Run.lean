/-
  Proofs/Backing/Run.lean --- a window whose top moves again and again.

  WHAT THIS FILE IS FOR.  A window is taken over once; from then on its top moves
  anywhere between the limits, with or without success, and clients write below
  it.  `TopStep` is one such step, and a run is any number of them.

  WHAT IS PROVED.  In every state of every run exactly the pages below the top
  are mapped and the rest of the last page is clear; pages came and went in turn
  and the reserved ones stayed; the free frames and those behind grown pages are
  the frames there were at the start.  From every such state every move ends in
  one of the two ways a move can end.
-/
import GuardedHeap.Proofs.Backing
import Mathlib.Logic.Relation

set_option autoImplicit false

namespace GuardedHeap

open Relation (ReflTransGen)

namespace Machine

/-- A machine before any heap: the reserved pages are mapped from the start and
no others, and the lock is free.  Memory, frames and context are arbitrary. -/
structure Bare (m : Machine) : Prop where
  top_eq : m.arena.top = m.arena.window.floor
  last_eq : m.arena.last = 0
  pages : ∀ i, m.platform.pages.get? i = if i < m.reserved then some none else none
  lock_eq : m.lock = .unlocked
  installed_eq : m.installed = false

/-- A client writes a byte of the window. -/
def poke (m : Machine) (off : Nat) (b : UInt8) : Machine :=
  { m with arena := { m.arena with memory := m.arena.memory.set off b } }

theorem pagesBelow_floor (m : Machine) : pagesBelow m.arena.window.floor = m.reserved := by
  have h := m.arena.window.floor_aligned
  unfold reserved pagesBelow
  simp only [pageSize] at *
  omega

/-- Taking over the window clears what is backed from the start. -/
theorem run_claimWindow (m : Machine) :
    claimWindow m = .ok ()
      { m with
        arena := { m.arena with memory := m.arena.memory.zero 0 m.arena.top }
        journal := m.journal.push (.started (m.arena.addr 0) (m.arena.addr m.arena.top)) } := rfl

namespace Bare

variable {m : Machine}

theorem maps (h : m.Bare) : m.platform.Maps (pagesBelow m.arena.top) := by
  intro i
  rw [h.top_eq, pagesBelow_floor, h.pages i]
  by_cases hi : i < m.reserved
  · rw [if_pos hi]
    simp [hi]
  · rw [if_neg hi]
    simp [hi]

/-- Pages that are backed from the start have no frames to give back. -/
theorem grown_eq (h : m.Bare) : m.platform.grown (pagesBelow m.arena.top) = [] := by
  unfold Platform.grown
  apply List.filterMap_eq_nil_iff.mpr
  intro i hi
  rw [List.mem_range, h.top_eq, pagesBelow_floor] at hi
  rw [h.pages i, if_pos hi]
  rfl

/-- Whatever the memory holds, exactly what is reserved is backed. -/
theorem backed (h : m.Bare) (memory : Memory) :
    Arena.Backed { m.arena with memory := memory } m.platform where
  floor_le := Nat.le_of_eq h.top_eq.symm
  le_ceiling := Nat.le_trans (Nat.le_of_eq h.top_eq) m.arena.window.floor_le_ceiling
  maps := h.maps
  slack := by
    -- there is no page with slack
    intro i h1 h2
    have htop : m.arena.top = m.arena.window.floor := h.top_eq
    have hf := m.arena.window.floor_aligned
    simp only [htop, pagesBelow, pageSize] at *
    omega

end Bare

end Machine

theorem PageTable.get?_boot (count i : Nat) :
    (PageTable.boot count).get? i = if i < count then some none else none := by
  unfold PageTable.boot PageTable.get?
  simp only [Array.getElem?_replicate]
  split <;> rfl

namespace Machine

theorem bare_boot (w : Window) (frames : Nat) (c : Context) (keepFrames : Bool)
    (stale : UInt8) : (boot w frames c keepFrames stale).Bare := by
  refine ⟨rfl, rfl, ?_, rfl, rfl⟩
  intro i
  rw [← pagesBelow_floor]
  exact PageTable.get?_boot _ i

/-! ## Steps and runs -/

/-- A step of a window that was taken over. -/
inductive TopStep : Machine → Machine → Prop
  /-- the top moves -/
  | moved {m m' : Machine} {newTop oldTop : Nat} (hlo : m.arena.window.floor ≤ newTop)
      (hhi : newTop ≤ m.arena.window.ceiling) (hrun : moveTop .none newTop m = .ok oldTop m') :
      TopStep m m'
  /-- the frames run out while the top moves -/
  | refused {m m' : Machine} {newTop page : Nat} (hlo : m.arena.window.floor ≤ newTop)
      (hhi : newTop ≤ m.arena.window.ceiling)
      (hrun : moveTop .none newTop m = .error (.detected (.outOfFrames page)) m') : TopStep m m'
  /-- a client writes below the top -/
  | wrote {m : Machine} {off : Nat} {b : UInt8} (hoff : off < m.arena.top) :
      TopStep m (m.poke off b)

/-- What holds in every state of a run that started with the frames `supply` and
the events `before`. -/
structure Ranged (w : Window) (supply : List Nat) (before : List Event) (m : Machine) : Prop where
  window_eq : m.arena.window = w
  backed : m.arena.Backed m.platform
  keepFrames_eq : m.platform.keepFrames = false
  boot : ∀ i, i < m.reserved → m.platform.pages.get? i = some none
  conserved : (m.platform.frames ++ m.platform.grown (pagesBelow m.arena.top)).Perm supply
  inTurn : ∃ es, m.events.toList = before ++ es ∧
    replay (m.pageNumber 0) m.reserved m.reserved es = some (pagesBelow m.arena.top)

/-- A window that was just taken over. -/
theorem ranged_claimWindow {m m' : Machine} (h : m.Bare) (hk : m.platform.keepFrames = false)
    (hrun : claimWindow m = .ok () m') :
    m'.Ranged m.arena.window m.platform.frames m.events.toList := by
  rw [run_claimWindow] at hrun
  cases hrun
  refine ⟨rfl, h.backed _, hk, ?_, ?_, [], ?_, ?_⟩
  · intro i hi
    exact (h.pages i).trans (if_pos hi)
  · show (m.platform.frames ++ m.platform.grown (pagesBelow m.arena.top)).Perm _
    rw [h.grown_eq, List.append_nil]
  · exact (List.append_nil _).symm
  · show some m.reserved = some (pagesBelow m.arena.top)
    rw [h.top_eq, pagesBelow_floor]

/-- A move keeps to the invariant of a run, however it ends. -/
theorem Ranged.topMoved {w : Window} {supply : List Nat} {before : List Event} {m m' : Machine}
    (h : m.Ranged w supply before) (hm : m.TopMoved m') : m'.Ranged w supply before := by
  have hwindow := hm.repaged.beside.window_eq
  have hres : m'.reserved = m.reserved := by
    unfold reserved
    rw [hwindow]
  have hpage : m'.pageNumber 0 = m.pageNumber 0 := by
    unfold pageNumber
    rw [hwindow]
  refine ⟨hwindow.trans h.window_eq, hm.backed h.backed,
    hm.repaged.beside.keepFrames_eq.trans h.keepFrames_eq, ?_, ?_, ?_⟩
  · intro i hi
    rw [hres] at hi
    exact (hm.repaged.kept i hi).trans (h.boot i hi)
  · exact (hm.repaged.conserved h.keepFrames_eq).trans h.conserved
  · obtain ⟨es, hes, hr⟩ := h.inTurn
    obtain ⟨es', hes', hr'⟩ := hm.repaged.replayed
    refine ⟨es ++ es', by rw [hes', hes, List.append_assoc], ?_⟩
    rw [hres, hpage, replay_append hr]
    exact hr'

/-- Each step keeps to the invariant of a run. -/
theorem Ranged.step {w : Window} {supply : List Nat} {before : List Event} {m m' : Machine}
    (h : m.Ranged w supply before) (hs : TopStep m m') : m'.Ranged w supply before := by
  cases hs with
  | moved hlo hhi hrun =>
    rcases moveTop_cases h.backed hlo hhi with ⟨n, hn, -, hm⟩ | ⟨n, hn, hr⟩
    · rw [hn] at hrun
      cases hrun
      exact h.topMoved hm
    · rw [hn] at hrun
      cases hrun
  | refused hlo hhi hrun =>
    rcases moveTop_cases h.backed hlo hhi with ⟨n, hn, -, hm⟩ | ⟨n, hn, hr⟩
    · rw [hn] at hrun
      cases hrun
    · rw [hn] at hrun
      cases hrun
      exact h.topMoved hr.moved
  | wrote hoff =>
    obtain ⟨hwindow, ⟨hfloor, hceiling, hmaps, hslack⟩, hkeep, hboot, hconserved, hturn⟩ := h
    refine ⟨hwindow, ⟨hfloor, hceiling, hmaps, ?_⟩, hkeep, hboot, hconserved, hturn⟩
    intro i hi hj
    simp only [poke] at hi hj ⊢
    rw [Memory.get_set, if_neg (by omega)]
    exact hslack i hi hj

/-- Every run keeps to the invariant. -/
theorem Ranged.run {w : Window} {supply : List Nat} {before : List Event} {m m' : Machine}
    (h : m.Ranged w supply before) (hs : ReflTransGen TopStep m m') :
    m'.Ranged w supply before := by
  induction hs with
  | refl => exact h
  | tail _ hstep ih => exact ih.step hstep

/-- The backing of a window in every state of every run, and both ways in which
the next move can end. -/
theorem backing_of_run {bare start m : Machine} (hbare : bare.Bare)
    (hkeep : bare.platform.keepFrames = false) (hstart : claimWindow bare = .ok () start)
    (hrun : ReflTransGen TopStep start m) :
    m.Ranged bare.arena.window bare.platform.frames bare.events.toList ∧
      ∀ newTop, m.arena.window.floor ≤ newTop → newTop ≤ m.arena.window.ceiling →
        (∃ m', moveTop .none newTop m = .ok m.arena.top m' ∧ m'.arena.top = newTop ∧
            m.TopMoved m') ∨
          ∃ m', moveTop .none newTop m =
              .error (.detected (.outOfFrames (m.pageNumber (pagesBelow m'.arena.top)))) m' ∧
            m.Refused newTop m' := by
  have h := (ranged_claimWindow hbare hkeep hstart).run hrun
  exact ⟨h, fun newTop hlo hhi => moveTop_cases h.backed hlo hhi⟩

/-- A window of one reserved page that may grow to four. -/
def smallWindow : Window :=
  ⟨0x10000000, 4096, 16384, by decide, by decide, by decide, by decide, by decide, by decide,
    by decide⟩

/-- A machine with two frames before any heap. -/
def smallBare : Machine := boot smallWindow 2 ⟨⟨1⟩, 0, true, true⟩ false 0xaa

/-- The small window after its top went up into the second page. -/
def smallGrown : Machine := after (moveTop .none 5000) (after claimWindow smallBare)

/-- The small window after a write and a move that ran out of frames half way. -/
def smallDrained : Machine := after (moveTop .none 16384) (smallGrown.poke 4999 7)

/-- Up, a write, up beyond the last frame, and down again to the middle of a
page. -/
theorem backing_of_small_run :
    (after (moveTop .none 4100) smallDrained).Ranged smallWindow [0, 1] [] :=
  have hup : TopStep (after claimWindow smallBare) smallGrown :=
    have hrun : moveTop .none 5000 (after claimWindow smallBare) = .ok 4096 smallGrown :=
      run_of_returns (by decide +kernel)
    .moved (by decide +kernel) (by decide +kernel) hrun
  have hwrite : TopStep smallGrown (smallGrown.poke 4999 7) := .wrote (by decide +kernel)
  have hout : TopStep (smallGrown.poke 4999 7) smallDrained :=
    have hrun : moveTop .none 16384 (smallGrown.poke 4999 7) =
        .error (.detected (.outOfFrames 65539)) smallDrained :=
      run_of_fails (by decide +kernel)
    .refused (by decide +kernel) (by decide +kernel) hrun
  have hdown : TopStep smallDrained (after (moveTop .none 4100) smallDrained) :=
    have hrun : moveTop .none 4100 smallDrained =
        .ok 12288 (after (moveTop .none 4100) smallDrained) :=
      run_of_returns (by decide +kernel)
    .moved (by decide +kernel) (by decide +kernel) hrun
  (backing_of_run (bare_boot smallWindow 2 _ false 0xaa) rfl
    (run_claimWindow smallBare)
    (.tail (.tail (.tail (.single hup) hwrite) hout) hdown)).1

end Machine

end GuardedHeap
