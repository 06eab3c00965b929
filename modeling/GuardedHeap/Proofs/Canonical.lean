/-
  Proofs/Canonical.lean --- the normal form of a heap.

  WHAT THIS FILE IS FOR.  Live blocks leave gaps, and between calls every gap is one
  free segment.  Behind the highest live block there is a free segment only as long as
  the reserved minimum is not reached.  So nothing of how a heap came about is left in
  its segments: they follow from where the live blocks are.

  WHAT IS PROVED.  In every world well-behaved clients lead to, the segments, the
  last of them, the top and the mapped pages are the canonical ones for the live
  blocks.  Two worlds with the same live blocks have the same, and without live blocks
  they are those of a new heap.
-/
import GuardedHeap.Proofs.WellFormed

set_option autoImplicit false

namespace GuardedHeap

/-! ## The canonical form -/

/-- Offset, payload size and use of every segment, in order. -/
def Arena.shape (a : Arena) : List (Nat × Nat × Bool) :=
  a.walk.segments.map fun s => (s.offset, s.header.size, s.header.used)

/-- Offset and payload size of every live block, in order. -/
def Arena.liveBlocks (a : Arena) : List (Nat × Nat) :=
  (a.walk.segments.filter fun s => s.header.used).map fun s => (s.offset, s.header.size)

/-- The segments for live blocks from an offset on: a gap is one free segment, and so is
what is missing to the reserved minimum. -/
def canonicalFrom (floor : Nat) : Nat → List (Nat × Nat) → List (Nat × Nat × Bool)
  | off, [] => if floor ≤ off then [] else [(off, floor - off - headerSize, false)]
  | off, (place, size) :: rest =>
    (if off < place then [(off, place - off - headerSize, false)] else []) ++
      (place, size, true) :: canonicalFrom floor (place + headerSize + size) rest

/-- Where the highest live block ends. -/
def highestEnd (blocks : List (Nat × Nat)) : Nat :=
  blocks.getLast?.elim 0 fun x => x.1 + headerSize + x.2

/-- The top for live blocks: their end, or the reserved minimum, but there is always
room for the header of a free segment. -/
def canonicalTop (floor : Nat) (blocks : List (Nat × Nat)) : Nat :=
  if floor ≤ highestEnd blocks then highestEnd blocks
  else max floor (highestEnd blocks + headerSize)

/-- The last segment for live blocks: the highest of them, or the free one behind. -/
def canonicalLast (floor : Nat) (blocks : List (Nat × Nat)) : Nat :=
  if floor ≤ highestEnd blocks then blocks.getLast?.elim 0 Prod.fst else highestEnd blocks

/-- An arena in canonical form, over the pages of a platform. -/
structure Arena.Canonical (a : Arena) (p : Platform) : Prop where
  shape_eq : a.shape = canonicalFrom a.window.floor 0 a.liveBlocks
  last_eq : a.last = canonicalLast a.window.floor a.liveBlocks
  top_eq : a.top = canonicalTop a.window.floor a.liveBlocks
  maps : ∀ i, (p.pages.get? i).isSome = true ↔
    i < pagesBelow (canonicalTop a.window.floor a.liveBlocks)

/-! ## Rows in canonical form -/

theorem map_segments (prev : Option Nat) (off : Nat) (bs : List Block) :
    ((segments prev off bs).map fun s => (s.offset, s.header.size, s.header.used)) =
      (places off bs).map fun x => (x.1, x.2.size, x.2.used) := by
  induction bs generalizing prev off with
  | nil => rfl
  | cons b rest ih =>
    rw [segments, places, List.map_cons, List.map_cons, ih]
    rfl

/-- The used segments of a row are its live blocks. -/
theorem map_filter_segments (prev : Option Nat) (off : Nat) (bs : List Block) :
    (((segments prev off bs).filter fun s => s.header.used).map fun s =>
        (s.offset, s.header.size)) =
      (live off bs).map fun x => (x.1, x.2.size) := by
  induction bs generalizing prev off with
  | nil => rfl
  | cons b rest ih =>
    rw [segments]
    cases hb : b.used with
    | true =>
      rw [live_cons_used hb, List.filter_cons_of_pos (by exact hb), List.map_cons, List.map_cons,
        ih]
      rfl
    | false =>
      rw [live_cons_free hb, List.filter_cons_of_neg (by simp [hb]), ih]

theorem Arena.liveBlocks_of_walk {a : Arena} {bs : List Block} {failure : Option Fault}
    (hw : a.walk = ⟨segments none 0 bs, failure⟩) :
    a.liveBlocks = (live 0 bs).map fun x => (x.1, x.2.size) := by
  unfold liveBlocks
  rw [hw]
  exact map_filter_segments none 0 bs

theorem Arena.Lists.liveBlocks_eq {a : Arena} {bs : List Block} (hl : a.Lists bs) :
    a.liveBlocks = (live 0 bs).map fun x => (x.1, x.2.size) :=
  liveBlocks_of_walk hl.walk

/-- A row from an offset on whose end is settled: a free block at the end starts below the
reserved minimum and reaches no farther than it has to, and no row ends below it. -/
structure SettledFrom (floor off : Nat) (bs : List Block) : Prop where
  free : ∀ pre b, bs = pre ++ [b] → b.used = false →
    off + span pre < floor ∧ off + span bs = max floor (off + span pre + headerSize)
  used : EndsUsed bs → floor ≤ off + span bs

/-- The rest of a row is settled as the row is. -/
theorem SettledFrom.tail {floor off : Nat} {b : Block} {rest : List Block}
    (h : SettledFrom floor off (b :: rest)) (hb : b.used = true ∨ rest ≠ []) :
    SettledFrom floor (off + b.extent) rest where
  free pre c hrest hc := by
    obtain ⟨h1, h2⟩ := h.free (b :: pre) c (by rw [hrest, List.cons_append]) hc
    rw [span_cons, ← Nat.add_assoc] at h1 h2
    rw [span_cons, ← Nat.add_assoc] at h2
    exact ⟨h1, h2⟩
  used hrest := by
    have hends : EndsUsed (b :: rest) := by
      intro x hx
      cases rest with
      | nil =>
        obtain rfl : b = x := by simpa using hx
        exact hb.resolve_right fun hne => hne rfl
      | cons c cs =>
        rw [List.getLast?_cons_cons] at hx
        exact hrest x hx
    have hle := h.used hends
    rwa [span_cons, ← Nat.add_assoc] at hle

/-- A separated row with a settled end is the canonical one for its live blocks. -/
theorem map_places {floor off : Nat} {bs : List Block} (hs : Separated bs)
    (h : SettledFrom floor off bs) :
    ((places off bs).map fun x => (x.1, x.2.size, x.2.used)) =
      canonicalFrom floor off ((live off bs).map fun x => (x.1, x.2.size)) := by
  induction bs generalizing off with
  | nil =>
    have hle := h.used endsUsed_nil
    rw [span_nil, Nat.add_zero] at hle
    exact (if_pos hle).symm
  | cons b rest ih =>
    have hrest : Separated rest := by
      unfold Separated at hs ⊢
      exact hs.tail
    rw [places, List.map_cons]
    cases hb : b.used with
    | true =>
      have hnext : off + b.extent = off + headerSize + b.size := (Nat.add_assoc _ _ _).symm
      rw [ih hrest (h.tail (Or.inl hb)), live_cons_used hb, List.map_cons, canonicalFrom,
        if_neg (Nat.lt_irrefl off), List.nil_append, hnext]
    | false =>
      have he : b.extent = headerSize + b.size := rfl
      rw [live_cons_free hb]
      cases rest with
      | nil =>
        -- the free end
        obtain ⟨h1, h2⟩ := h.free [] b rfl hb
        rw [span_nil, Nat.add_zero] at h1 h2
        rw [span_cons, span_nil, Nat.add_zero] at h2
        have hsize : floor - off - headerSize = b.size := by omega
        rw [live_nil, List.map_nil, canonicalFrom, if_neg (by omega), hsize]
        rfl
      | cons c cs =>
        -- a gap in front of a live block
        have hc : c.used = true := by
          unfold Separated at hs
          rw [List.isChain_cons_cons, hb] at hs
          simpa using hs.1
        have hsize : off + b.extent - off - headerSize = b.size := by omega
        have hlt : off < off + b.extent := by
          simp only [headerSize] at he
          omega
        rw [ih hrest (h.tail (Or.inr (List.cons_ne_nil c cs))), live_cons_used hc, List.map_cons,
          canonicalFrom, canonicalFrom, if_neg (Nat.lt_irrefl _), if_pos hlt, hsize]
        rfl

/-- Live blocks of a row that ends with a used one, or has none, reach to its end. -/
theorem highestEnd_live {bs : List Block} (h : EndsUsed bs) :
    highestEnd ((live 0 bs).map fun x => (x.1, x.2.size)) = span bs := by
  rcases List.eq_nil_or_concat bs with rfl | ⟨body, z, rfl⟩
  · rfl
  · rw [List.concat_eq_append] at h ⊢
    have hz : z.used = true := (endsUsed_concat body z).mp h
    have he : z.extent = headerSize + z.size := rfl
    unfold highestEnd
    rw [live_append, live_cons_used hz, live_nil, List.map_append, List.getLast?_append]
    show 0 + span body + headerSize + z.size = span (body ++ [z])
    rw [span_append, span_cons, span_nil]
    omega

/-- A sound heap is in canonical form. -/
theorem Arena.Sound.toCanonical {a : Arena} {p : Platform} {bs : List Block} (h : a.Sound p bs) :
    a.Canonical p := by
  have hl := h.lists
  have hshape : a.shape = (places 0 bs).map fun x => (x.1, x.2.size, x.2.used) := by
    unfold shape
    rw [hl.walk]
    exact map_segments none 0 bs
  have hlive := hl.liveBlocks_eq
  have hfloor : a.window.floor ≤ span bs := hl.top_eq ▸ h.backed.floor_le
  have hsettled : SettledFrom a.window.floor 0 bs := by
    refine ⟨?_, ?_⟩
    · intro pre b hbs hb
      rw [Nat.zero_add, Nat.zero_add]
      exact h.orderly.settled pre b hbs hb
    · intro _
      rw [Nat.zero_add]
      exact hfloor
  have hends : a.top = canonicalTop a.window.floor a.liveBlocks ∧
      a.last = canonicalLast a.window.floor a.liveBlocks := by
    unfold canonicalTop canonicalLast
    obtain ⟨body, z, rfl⟩ : ∃ body z, bs = body ++ [z] :=
      ⟨_, _, (List.dropLast_append_getLast hl.ne_nil).symm⟩
    rw [hlive, hl.last_concat, hl.top_eq]
    cases hz : z.used with
    | true =>
      rw [highestEnd_live ((endsUsed_concat body z).mpr hz), if_pos hfloor, if_pos hfloor]
      refine ⟨rfl, ?_⟩
      rw [live_append, live_cons_used hz, live_nil, List.map_append, List.getLast?_append]
      exact (Nat.zero_add _).symm
    | false =>
      obtain ⟨⟨-, hbody⟩, -⟩ := (separated_free hz).mp h.orderly.separated
      obtain ⟨hlt, hspan⟩ := h.orderly.settled body z rfl hz
      have hend : highestEnd ((live 0 (body ++ [z])).map fun x => (x.1, x.2.size)) = span body := by
        rw [live_append, live_cons_free hz, live_nil, List.append_nil]
        exact highestEnd_live hbody
      rw [hend, if_neg (by omega), if_neg (by omega)]
      exact ⟨hspan, rfl⟩
  refine ⟨?_, hends.2, hends.1, ?_⟩
  · rw [hshape, hlive]
    exact map_places h.orderly.separated hsettled
  · rw [← hends.1]
    exact h.backed.maps

/-! ## Every reachable world -/

theorem eq_of_mem_iff {xs ys : List (Nat × Nat)} (hx : xs.Pairwise fun x y => x.1 < y.1)
    (hy : ys.Pairwise fun x y => x.1 < y.1) (h : ∀ x, x ∈ xs ↔ x ∈ ys) : xs = ys := by
  have hne : ∀ {x y : Nat × Nat}, x.1 < y.1 → x ≠ y := by
    rintro x y hlt rfl
    exact Nat.lt_irrefl _ hlt
  have hperm : xs.Perm ys := (List.perm_ext_iff_of_nodup (hx.imp hne) (hy.imp hne)).mpr h
  exact hperm.eq_of_pairwise (fun x y _ _ hxy hyx => absurd hxy (Nat.lt_asymm hyx)) hx hy

theorem Arena.Lists.pairwise_liveBlocks {a : Arena} {bs : List Block} (hl : a.Lists bs) :
    a.liveBlocks.Pairwise fun x y => x.1 < y.1 := by
  rw [hl.liveBlocks_eq, List.pairwise_map]
  exact pairwise_live_lt bs

/-- Without live blocks there is one free segment over the reserved minimum. -/
theorem Arena.Canonical.of_no_blocks {a : Arena} {p : Platform} (h : a.Canonical p)
    (hnone : a.liveBlocks = []) :
    a.shape = [(0, a.window.floor - headerSize, false)] ∧ a.last = 0 ∧ a.top = a.window.floor ∧
      ∀ i, (p.pages.get? i).isSome = true ↔ i < a.window.floor / pageSize := by
  obtain ⟨hshape, hlast, htop, hmaps⟩ := h
  have hpage := a.window.pageSize_le_floor
  have haligned := a.window.floor_aligned
  have hempty : canonicalTop a.window.floor [] = a.window.floor := by
    show (if a.window.floor ≤ 0 then 0 else max a.window.floor (0 + headerSize)) = _
    simp only [headerSize, pageSize] at *
    rw [if_neg (by omega)]
    omega
  have hpages : pagesBelow a.window.floor = a.window.floor / pageSize := by
    simp only [pagesBelow, pageSize] at *
    omega
  have hfloor : ¬ a.window.floor ≤ 0 := Nat.not_le.mpr a.window.floor_pos
  rw [hnone] at hshape hlast htop hmaps
  rw [hempty] at htop hmaps
  rw [hpages] at hmaps
  refine ⟨?_, ?_, htop, hmaps⟩
  · rw [hshape, canonicalFrom, if_neg hfloor, Nat.sub_zero]
  · rw [hlast]
    exact if_neg hfloor

/-- In every world well-behaved clients lead to, the heap is in canonical form.  So
worlds with the same reserved minimum and the same live blocks have the same segments, last
segment, top and mapped pages, whatever led to them; and when clients hold nothing, these
are the ones of a new heap. -/
theorem World.Reachable.canonical {w : World} (h : w.Reachable) :
    w.machine.arena.Canonical w.machine.platform ∧
      (∀ w' : World, w'.Reachable →
        w'.machine.arena.window.floor = w.machine.arena.window.floor →
        (∀ x, x ∈ w'.machine.arena.liveBlocks ↔ x ∈ w.machine.arena.liveBlocks) →
        w'.machine.arena.shape = w.machine.arena.shape ∧
          w'.machine.arena.last = w.machine.arena.last ∧
          w'.machine.arena.top = w.machine.arena.top ∧
          ∀ i, (w'.machine.platform.pages.get? i).isSome = true ↔
            (w.machine.platform.pages.get? i).isSome = true) ∧
      (w.ledger = [] → w.machine.arena.liveBlocks = []) ∧
      (w.machine.arena.liveBlocks = [] →
        w.machine.arena.shape = [(0, w.machine.arena.window.floor - headerSize, false)] ∧
          w.machine.arena.last = 0 ∧ w.machine.arena.top = w.machine.arena.window.floor ∧
          ∀ i, (w.machine.platform.pages.get? i).isSome = true ↔
            i < w.machine.arena.window.floor / pageSize) := by
  obtain ⟨bs, hheld⟩ := h.held
  have hsound := hheld.served.sound
  have hcanon := hsound.toCanonical
  refine ⟨hcanon, ?_, ?_, hcanon.of_no_blocks⟩
  · intro w' h' hfloor hsame
    obtain ⟨bs', hheld'⟩ := h'.held
    have hsound' := hheld'.served.sound
    obtain ⟨hshape', hlast', htop', hmaps'⟩ := hsound'.toCanonical
    have hblocks : w'.machine.arena.liveBlocks = w.machine.arena.liveBlocks :=
      eq_of_mem_iff hsound'.lists.pairwise_liveBlocks hsound.lists.pairwise_liveBlocks hsame
    rw [hblocks, hfloor] at hshape' hlast' htop' hmaps'
    exact ⟨hshape'.trans hcanon.shape_eq.symm, hlast'.trans hcanon.last_eq.symm,
      htop'.trans hcanon.top_eq.symm, fun i => (hmaps' i).trans (hcanon.maps i).symm⟩
  · intro hledger
    obtain ⟨zs, hl, hx, -⟩ := hheld.owned
    rw [hledger, List.perm_nil, List.map_eq_nil_iff] at hl
    rw [hl, List.map_nil, List.nil_perm] at hx
    unfold Arena.liveBlocks
    rw [hsound.lists.walk, map_filter_segments, hx, List.map_nil]

namespace World

open Machine

/-- The small heap after its block was freed, beside the other. -/
def smallHalf : Machine := after (free .none 0x10000040 ⟨3⟩) smallWorld.machine

/-- The client of the other still holds it. -/
def smallFreed : World := ⟨smallHalf, [smallLayout.grant 0x10000100]⟩

/-- The small heap after both were given back. -/
def smallEmptied : World := ⟨after (freeLayout .none 0x10000100 smallLayout ⟨4⟩) smallHalf, []⟩

theorem reachable_smallFreed : smallFreed.Reachable := by
  have hheld : (⟨0x10000040, none⟩ : Grant) ∈ smallWorld.ledger :=
    List.mem_cons_of_mem _ (List.mem_singleton_self _)
  have hfree : free .none 0x10000040 ⟨3⟩ smallWorld.machine = .ok true smallHalf :=
    run_of_returns (by decide +kernel)
  have hstep := @Step.call smallWorld (.free 0x10000040) ⟨3⟩ _ _ (Or.inr hheld)
    (run_bind_ok hfree)
  exact reachable_smallWorld.step hstep

theorem reachable_smallEmptied : smallEmptied.Reachable := by
  have hfreeLayout : freeLayout .none 0x10000100 smallLayout ⟨4⟩ smallFreed.machine =
      .ok () smallEmptied.machine := run_of_returns (r := ()) (by decide +kernel)
  have hstep := @Step.call smallFreed (.freeLayout 0x10000100 smallLayout) ⟨4⟩ _ _
    (Or.inr (List.mem_singleton_self _)) (run_bind_ok hfreeLayout)
  exact reachable_smallFreed.step hstep

/-- Giving everything back leads to the new heap again. -/
theorem canonical_smallEmptied :
    smallEmptied.machine.arena.shape = smallNew.machine.arena.shape ∧
      smallEmptied.machine.arena.last = smallNew.machine.arena.last ∧
      smallEmptied.machine.arena.top = smallNew.machine.arena.top ∧
      ∀ i, (smallEmptied.machine.platform.pages.get? i).isSome = true ↔
        (smallNew.machine.platform.pages.get? i).isSome = true := by
  obtain ⟨-, htwo, hnew, -⟩ := World.Reachable.canonical reachable_smallNew
  obtain ⟨-, -, hempty, -⟩ := World.Reachable.canonical reachable_smallEmptied
  apply htwo smallEmptied reachable_smallEmptied (by decide +kernel)
  intro x
  rw [hnew rfl, hempty rfl]

end World

end GuardedHeap
