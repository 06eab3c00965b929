/-
  Proofs/WellFormed.lean --- the shape of a heap between calls.

  WHAT THIS FILE IS FOR.  The rules a heap keeps, said of what a walk over its
  segments sees and of its bytes and pages, without blocks or ledgers.  This is
  what an audit relies on, and more than it can see: that free memory and the slack
  of the last page are clear is not stored anywhere.

  WHAT IS PROVED.  The rules hold in every world well-behaved clients lead to, and so
  an audit there succeeds.
-/
import GuardedHeap.Proofs.Client

set_option autoImplicit false

namespace GuardedHeap

/-! ## The rules -/

/-- An arena that keeps all rules, over the pages of a platform. -/
structure Arena.WellFormed (a : Arena) (p : Platform) : Prop where
  /-- the links lead from the first segment to the last -/
  unbroken : a.walk.failure = none
  first : ∃ s ∈ a.walk.segments.head?, s.offset = 0 ∧ s.header.prev = none
  /-- each segment starts where the one in front of it stops, they are linked to each
  other, and they are not both free -/
  chain : a.walk.segments.IsChain fun s t => t.offset = s.stop ∧ s.header.next = some t.offset ∧
    t.header.prev = some s.offset ∧ (s.header.used = true ∨ t.header.used = true)
  final : ∃ s ∈ a.walk.segments.getLast?, s.offset = a.last ∧ s.stop = a.top ∧
    s.header.next = none
  intact : ∀ s ∈ a.walk.segments, Header.guardAt a.memory s.offset = guardWord ∧
    Header.load a.memory s.offset = s.header
  aligned : ∀ s ∈ a.walk.segments, s.offset % granule = 0 ∧ s.header.size % granule = 0
  /-- free memory is clear -/
  clear : ∀ s ∈ a.walk.segments, s.header.used = false →
    ∀ i, s.offset + headerSize ≤ i → i < s.stop → a.memory.get i = 0
  /-- what is mapped above the top is clear -/
  slack : ∀ i, a.top ≤ i → i < pagesBelow a.top * pageSize → a.memory.get i = 0
  floor_le : a.window.floor ≤ a.top
  le_ceiling : a.top ≤ a.window.ceiling
  maps : ∀ i, (p.pages.get? i).isSome = true ↔ i < pagesBelow a.top

/-! ## A row as a walk sees it -/

/-- Neighbors in a row are linked, and not both free. -/
theorem isChain_segments {bs : List Block} (hs : Separated bs) (prev : Option Nat) (off : Nat) :
    (segments prev off bs).IsChain fun s t => t.offset = s.stop ∧ s.header.next = some t.offset ∧
      t.header.prev = some s.offset ∧ (s.header.used = true ∨ t.header.used = true) := by
  induction bs generalizing prev off with
  | nil => exact List.isChain_nil
  | cons x xs ih =>
    cases xs with
    | nil => exact List.isChain_singleton _
    | cons y ys =>
      unfold Separated at hs
      rw [List.isChain_cons_cons] at hs
      have hrest := ih hs.2 (some off) (off + x.extent)
      rw [segments, segments, List.isChain_cons_cons]
      rw [segments] at hrest
      exact ⟨⟨(Nat.add_assoc _ _ _).symm, rfl, rfl, hs.1⟩, hrest⟩

/-- The rules hold of every sound heap. -/
theorem Arena.Sound.toWellFormed {a : Arena} {p : Platform} {bs : List Block} (h : a.Sound p bs) :
    a.WellFormed p := by
  have hl := h.lists
  have hw := hl.walk
  refine ⟨by rw [hw], ?_, ?_, ?_, ?_, ?_, ?_,
    h.backed.slack, h.backed.floor_le, h.backed.le_ceiling, h.backed.maps⟩
  · rw [hw]
    cases bs with
    | nil => exact absurd rfl hl.ne_nil
    | cons b rest => exact ⟨_, rfl, rfl, rfl⟩
  · rw [hw]
    exact isChain_segments h.orderly.separated none 0
  · obtain ⟨body, z, rfl⟩ : ∃ body z, bs = body ++ [z] :=
      ⟨_, _, (List.dropLast_append_getLast hl.ne_nil).symm⟩
    rw [hw]
    refine ⟨_, getLast?_segments_concat none 0 body z, ?_, ?_, rfl⟩
    · rw [hl.last_concat, Nat.zero_add]
    · have he : z.extent = headerSize + z.size := rfl
      show 0 + span body + headerSize + z.size = a.top
      rw [hl.top_eq, span_append, span_cons, span_nil]
      omega
  · intro s hs
    obtain ⟨pre, b, post, rfl, rfl⟩ := hl.mem_walk_iff.mp hs
    exact ⟨hl.stands.heads.guard_eq, hl.stands.heads.load_eq⟩
  · intro s hs
    obtain ⟨pre, b, post, rfl, rfl⟩ := hl.mem_walk_iff.mp hs
    exact ⟨hl.span_pre_aligned, hl.aligned b (by simp)⟩
  · intro s hs hu i h1 h2
    obtain ⟨pre, b, post, rfl, rfl⟩ := hl.mem_walk_iff.mp hs
    have hclear : b.Clear := h.orderly.clear b (by simp)
    have hlow : span pre + headerSize ≤ i := h1
    have hhigh : i < span pre + headerSize + b.size := h2
    have hplace : i = span pre + headerSize + (i - (span pre + headerSize)) := by omega
    rw [hplace, hl.stands.payload _ (by omega)]
    exact hclear hu _ (by omega)

/-! ## Every reachable world -/

/-- In every world well-behaved clients lead to, the heap keeps its rules, and an audit
succeeds for every context that may use the heap. -/
theorem World.Reachable.wellFormed {w : World} (h : w.Reachable) :
    w.machine.arena.WellFormed w.machine.platform ∧
      (∃ t, w.machine.arena.totals = .ok t) ∧
      (w.machine.Open → ∀ site, ∃ m, Machine.audit site w.machine = .ok () m) := by
  obtain ⟨bs, hheld⟩ := h.held
  have hsound := hheld.served.sound
  refine ⟨hsound.toWellFormed, ⟨_, hsound.lists.totals hsound.orderly.separated⟩, ?_⟩
  intro ho site
  obtain ⟨j, hstats⟩ := Machine.run_stats hheld.served ho site
  exact ⟨_, run_bind_ok hstats⟩

theorem World.wellFormed_smallWorld :
    smallWorld.machine.arena.WellFormed smallWorld.machine.platform ∧
      ∃ m, Machine.audit ⟨3⟩ smallWorld.machine = .ok () m := by
  obtain ⟨hrules, -, haudit⟩ := World.Reachable.wellFormed reachable_smallWorld
  exact ⟨hrules, haudit (by decide +kernel) ⟨3⟩⟩

end GuardedHeap
