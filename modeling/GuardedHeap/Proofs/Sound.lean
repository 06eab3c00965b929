/-
  Proofs/Sound.lean --- the invariant of a heap.

  WHAT THIS FILE IS FOR.  A sound heap holds a row of blocks that is in order,
  backed by exactly the pages below the top.  Whatever frees memory ends by
  trimming the row, which changes the end of the row and the top together.

  WHAT IS PROVED.  Trimming at a free block always succeeds, and what it leaves
  is the trimmed row over exactly the pages it needs.
-/
import GuardedHeap.Proofs.Backing
import GuardedHeap.Proofs.Order

set_option autoImplicit false

namespace GuardedHeap

/-! ## The invariant -/

/-- A heap whose memory holds a row of blocks in order, over pages that are
mapped exactly as far as the top. -/
structure Arena.Sound (a : Arena) (p : Platform) (bs : List Block) : Prop where
  lists : a.Lists bs
  backed : a.Backed p
  orderly : Orderly a.window.floor bs

/-- A heap of which that much is in order, whatever its free memory holds. -/
structure Arena.Intact (a : Arena) (p : Platform) (bs : List Block) : Prop where
  lists : a.Lists bs
  backed : a.Backed p
  separated : Separated bs

theorem Arena.Sound.intact {a : Arena} {p : Platform} {bs : List Block} (h : a.Sound p bs) :
    a.Intact p bs := ⟨h.lists, h.backed, h.orderly.separated⟩

namespace Arena

/-- Changes below the top do not concern the pages. -/
theorem Backed.inside {a a' : Arena} {p : Platform} (hb : a.Backed p) (h : a.Inside a') :
    a'.Backed p where
  floor_le := by
    rw [h.window_eq, h.top_eq]
    exact hb.floor_le
  le_ceiling := by
    rw [h.window_eq, h.top_eq]
    exact hb.le_ceiling
  maps := by
    rw [h.top_eq]
    exact hb.maps
  slack i hi hj := by
    rw [h.top_eq] at hi hj
    rw [h.above i hi]
    exact hb.slack i hi hj

theorem Lists.last_concat {a : Arena} {pre : List Block} {b : Block} (h : a.Lists (pre ++ [b])) :
    a.last = span pre := by
  have hl := h.last_eq
  rw [lastLink_concat, Nat.zero_add, Option.some.injEq] at hl
  exact hl.symm

theorem Lists.ne_last {a : Arena} {pre post : List Block} {b : Block}
    (h : a.Lists (pre ++ b :: post)) (hp : post ≠ []) : span pre ≠ a.last := by
  obtain ⟨body, z, rfl⟩ : ∃ body z, post = body ++ [z] :=
    ⟨_, _, (List.dropLast_append_getLast hp).symm⟩
  have hassoc : pre ++ b :: (body ++ [z]) = (pre ++ b :: body) ++ [z] := by simp
  rw [hassoc] at h
  rw [h.last_concat, span_append, span_cons]
  have hpos := b.extent_pos
  omega

section Ends

variable {a : Arena} {pre post : List Block} {b : Block}

theorem Lists.word_payload (h : a.Lists (pre ++ b :: post)) :
    Word.add (span pre) headerSize = .ok (span pre + headerSize) := by
  have hstop := h.stop_le
  have htop := top_lt h.top_le
  have he : b.extent = headerSize + b.size := rfl
  exact Word.add_eq_ok.mpr ⟨rfl, by omega⟩

theorem Lists.word_stop (h : a.Lists (pre ++ b :: post)) :
    Word.add (span pre + headerSize) (b.headerIn pre post).size = .ok (span pre + b.extent) := by
  have hstop := h.stop_le
  have htop := top_lt h.top_le
  have he : b.extent = headerSize + b.size := rfl
  rw [Block.headerIn_size]
  exact Word.add_eq_ok.mpr ⟨by omega, by omega⟩

end Ends

/-- A row stands below a top that was moved there. -/
theorem lists_of_topMoved {m m' : Machine} {bs : List Block} (h : m.TopMoved m')
    (ht : Tiled m.arena.memory none 0 bs none) (htop : m'.arena.top = span bs)
    (hle : span bs ≤ m.arena.top) (hlast : lastLink none 0 bs = some m.arena.last)
    (ha : ∀ b ∈ bs, b.size % granule = 0) : m'.arena.Lists bs where
  tiled := ht.congr (h.below.mono (Nat.le_refl _) (by omega))
  top_eq := htop
  last_eq := by
    rw [h.repaged.beside.last_eq]
    exact hlast
  aligned := ha
  top_le := by
    rw [h.repaged.beside.window_eq]
    exact h.le_ceiling

end Arena

namespace Machine

theorem around_onArena {m : Machine} {a : Arena} (h : m.arena.Inside a) :
    m.Around { m with arena := a } := ⟨h.window_eq, rfl, rfl, rfl, rfl, rfl⟩

/-! ## Trimming -/

/-- The arena after the header of `d` was written behind the row `pre` as that of the
last block. -/
def endedAt (a : Arena) (pre : List Block) (d : Block) : Arena :=
  { a with
    memory := Header.store a.memory (span pre) (d.headerIn pre [])
    last := span pre }

/-- When a row ends at an earlier block, whole or cut down, the top comes down to where
that block ends. -/
theorem run_moveTop_ended {m : Machine} {pre post : List Block} {b d : Block}
    (hl : m.arena.Lists (pre ++ b :: post)) (hb : m.arena.Backed m.platform)
    (hsize : d.size ≤ b.size) (hbytes : d.bytes = b.bytes) (hg : d.size % granule = 0)
    (hfloor : m.arena.window.floor ≤ span (pre ++ [d])) :
    ∃ m', moveTop .none (span (pre ++ [d])) { m with arena := endedAt m.arena pre d } =
        .ok m.arena.top m' ∧
      m'.arena.Lists (pre ++ [d]) ∧ m'.arena.Backed m'.platform ∧ m.Around m' := by
  obtain ⟨h1, h2, -⟩ := hl.parts
  have htop := Arena.top_lt hl.top_le
  have hstop := hl.stop_le
  have hbe : b.extent = headerSize + b.size := rfl
  have hde : d.extent = headerSize + d.size := rfl
  have hspan := span_concat pre d
  have hin : m.arena.Inside (endedAt m.arena pre d) :=
    ⟨rfl, rfl, fun i hi => Header.get_store_of_outside _ (Or.inr (by omega))⟩
  have htiled : Tiled (endedAt m.arena pre d).memory none 0 (pre ++ [d]) none := by
    apply Arena.tiled_concat_store h1 (by omega)
    intro i hi
    rw [hbytes]
    exact h2.payload i (by omega)
  have hlast : lastLink none 0 (pre ++ [d]) = some (endedAt m.arena pre d).last := by
    rw [lastLink_concat, Nat.zero_add]
    rfl
  have halign : ∀ x ∈ pre ++ [d], x.size % granule = 0 :=
    List.forall_mem_append.mpr
      ⟨fun x hx => hl.aligned x (List.mem_append_left _ hx), List.forall_mem_singleton.mpr hg⟩
  have hdown : span (pre ++ [d]) ≤ m.arena.top := by omega
  have hbacked : Arena.Backed (endedAt m.arena pre d) m.platform := hb.inside hin
  obtain ⟨m', hrun, hend, hmoved⟩ :=
    run_moveTop_down (m := { m with arena := endedAt m.arena pre d }) hbacked hfloor hdown
  exact ⟨m', hrun, Arena.lists_of_topMoved hmoved htiled hend hdown hlast halign,
    hmoved.backed hbacked, (around_onArena hin).trans hmoved.repaged.beside.toAround⟩

/-- The last block goes and the top comes down to where it started. -/
theorem run_trim_remove {m : Machine} {pre : List Block} {c : Block}
    (hl : m.arena.Lists (pre ++ [c])) (hb : m.arena.Backed m.platform) (hc : c.used = false)
    (hfloor : m.arena.window.floor ≤ span pre) :
    ∃ m', trim .none (span pre) m = .ok () m' ∧ m'.arena.Lists pre ∧
      m'.arena.Backed m'.platform ∧ m.Around m' := by
  have hpos := m.arena.window.floor_pos
  obtain ⟨front, q, rfl⟩ : ∃ front q, pre = front ++ [q] := by
    rcases List.eq_nil_or_concat pre with rfl | ⟨front, q, rfl⟩
    · simp only [span_nil] at hfloor
      omega
    · exact ⟨front, q, List.concat_eq_append⟩
  have hl' := Arena.Lists.concat_iff.mp hl
  have hgran : q.size % granule = 0 := hl'.aligned q (by simp)
  have hprev : lastLink none 0 (front ++ [q]) = some (span front) := by
    rw [lastLink_concat, Nat.zero_add]
  obtain ⟨m', hrun, hlists, hbacked, haround⟩ :=
    run_moveTop_ended hl' hb (Nat.le_refl _) rfl hgran hfloor
  refine ⟨m', ?_, hlists, hbacked, haround⟩
  have hused : ¬ (c.headerIn (front ++ [q]) []).used = true := by simp [hc]
  unfold trim
  rw [run_bind_ok (run_get m)]
  dsimp only
  rw [if_pos hl.last_concat.symm, hl.read, run_bind_ok (run_lift_ok _ _), if_neg hused,
    if_pos ⟨by omega, hfloor⟩, hl.predecessor, run_bind_ok (run_lift_ok _ _), hprev]
  dsimp only
  rw [hl'.read, run_bind_ok (run_lift_ok _ _)]
  -- the header in front loses its link before the top moves
  have hwrite : onArena (do
      Arena.writeHeader (span front) (q.headerIn front [])
      Arena.setLast (span front)) m =
        .ok () { m with arena := endedAt m.arena front q } := run_onArena_ok rfl
  exact (run_bind_ok hwrite).trans (run_bind_ok hrun)

/-- The last block is cut to end at the reserved minimum, or with its header. -/
theorem run_trim_cut {m : Machine} {pre : List Block} {c : Block}
    (hl : m.arena.Lists (pre ++ [c])) (hb : m.arena.Backed m.platform) (hc : c.used = false)
    (hfloor : ¬ m.arena.window.floor ≤ span pre)
    (hcut : m.arena.window.floor < span pre + c.extent) :
    ∃ m', trim .none (span pre) m = .ok () m' ∧
      m'.arena.Lists
        (pre ++ [{ c with size := m.arena.window.floor - (span pre + headerSize) }]) ∧
      m'.arena.Backed m'.platform ∧ m.Around m' := by
  have he : c.extent = headerSize + c.size := rfl
  have hfa := m.arena.window.floor_aligned
  have hpa := hl.span_pre_aligned
  obtain ⟨size, hs⟩ : ∃ size, size = m.arena.window.floor - (span pre + headerSize) := ⟨_, rfl⟩
  have hsize : size ≤ c.size := by omega
  have hgran : size % granule = 0 := by
    simp only [pageSize, granule, headerSize] at *
    omega
  have hspan : span (pre ++ [{ c with size := size }]) = span pre + headerSize + size := by
    simp [Block.extent, Nat.add_assoc]
  obtain ⟨m', hrun, hlists, hbacked, haround⟩ :=
    run_moveTop_ended (d := { c with size := size }) hl hb hsize rfl hgran
      (by rw [hspan]; omega)
  rw [hspan] at hrun
  rw [← hs]
  refine ⟨m', ?_, hlists, hbacked, haround⟩
  have hused : ¬ (c.headerIn pre []).used = true := by simp [hc]
  -- the block is the last one already
  have hwrite : onArena (Arena.writeHeader (span pre)
      (({ c with size := size } : Block).headerIn pre [])) m =
        .ok () { m with arena := endedAt m.arena pre { c with size := size } } := by
    refine run_onArena_ok ?_
    unfold endedAt
    rw [← hl.last_concat]
    rfl
  unfold trim
  rw [run_bind_ok (run_get m)]
  dsimp only
  rw [if_pos hl.last_concat.symm, hl.read, run_bind_ok (run_lift_ok _ _), if_neg hused,
    if_neg (fun h => hfloor h.2), hl.word_payload, run_bind_ok (run_lift_ok _ _), hl.word_stop,
    run_bind_ok (run_lift_ok _ _), if_pos hcut, ← hs]
  exact (run_bind_ok hwrite).trans (run_bind_ok hrun)

/-- Trimming at a free block always succeeds and trims the row. -/
theorem run_trim {m : Machine} {pre post : List Block} {c : Block}
    (hl : m.arena.Lists (pre ++ c :: post)) (hb : m.arena.Backed m.platform)
    (hc : c.used = false) :
    ∃ m', trim .none (span pre) m = .ok () m' ∧
      m'.arena.Lists (trimmed m.arena.window.floor pre c post) ∧
      m'.arena.Backed m'.platform ∧ m.Around m' := by
  unfold trimmed
  by_cases hpost : post = []
  · subst hpost
    rw [if_neg (fun h => h rfl)]
    by_cases hremove : m.arena.window.floor ≤ span pre
    · rw [if_pos hremove]
      exact run_trim_remove hl hb hc hremove
    · rw [if_neg hremove]
      by_cases hcut : m.arena.window.floor < span pre + c.extent
      · rw [if_pos hcut]
        exact run_trim_cut hl hb hc hremove hcut
      · -- the block ends at the reserved minimum already
        rw [if_neg hcut]
        refine ⟨m, ?_, hl, hb, Around.refl m⟩
        have hused : ¬ (c.headerIn pre []).used = true := by simp [hc]
        unfold trim
        rw [run_bind_ok (run_get m)]
        dsimp only
        rw [if_pos hl.last_concat.symm, hl.read, run_bind_ok (run_lift_ok _ _), if_neg hused,
          if_neg (fun h => hremove h.2), hl.word_payload, run_bind_ok (run_lift_ok _ _),
          hl.word_stop, run_bind_ok (run_lift_ok _ _), if_neg hcut]
        rfl
  · rw [if_pos hpost]
    refine ⟨m, ?_, hl, hb, Around.refl m⟩
    unfold trim
    rw [run_bind_ok (run_get m)]
    dsimp only
    rw [if_neg (hl.ne_last hpost)]
    rfl

/-- Trimming after work on a sound heap that left a tidy row puts it in order again and
keeps the live blocks. -/
theorem run_trim_inside {m : Machine} {a : Arena} {pre post front back : List Block} {b c : Block}
    (hs : m.arena.Sound m.platform (pre ++ b :: post)) (hin : m.arena.Inside a)
    (hl : a.Lists (front ++ c :: back)) (hc : c.used = false) (ht : Tidy (front ++ c :: back))
    (hback : back <:+ post) :
    ∃ m', trim .none (span front) { m with arena := a } = .ok () m' ∧
      m'.arena.Sound m'.platform (trimmed m.arena.window.floor front c back) ∧ m.Around m' ∧
      live 0 (trimmed m.arena.window.floor front c back) = live 0 (front ++ c :: back) := by
  have hbacked : a.Backed m.platform := hs.backed.inside hin
  have hwindow : a.window = m.arena.window := hin.window_eq
  have hspan : span (front ++ c :: back) = span (pre ++ b :: post) := by
    rw [← hl.top_eq, hin.top_eq, hs.lists.top_eq]
  have hfloor : m.arena.window.floor ≤ span (front ++ c :: back) := by
    rw [hspan, ← hs.lists.top_eq]
    exact hs.backed.floor_le
  obtain ⟨horder, hlive⟩ := orderly_trimmed ht hc
    (fun hne => hs.orderly.settled.replace hback hne hspan) hfloor
  obtain ⟨m', hrun, htrimmed, hb', haround⟩ := run_trim (m := { m with arena := a }) hl hbacked hc
  have haround' : m.Around m' := (around_onArena hin).trans haround
  rw [show (arena { m with arena := a }).window = m.arena.window from hwindow] at htrimmed
  refine ⟨m', hrun, ⟨htrimmed, hb', ?_⟩, haround', hlive⟩
  rw [haround'.window_eq]
  exact horder

end Machine

end GuardedHeap
