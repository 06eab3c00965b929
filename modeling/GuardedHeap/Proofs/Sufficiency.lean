/-
  Proofs/Sufficiency.lean --- what a passed audit is good for.

  WHAT THIS FILE IS FOR.  The audit and the operations check segments each in their own
  way.  Where memory holds anything at all, a client can only rely on the audit: what it
  accepts should be enough to give blocks back.

  WHAT IS PROVED.  After an audit that passed, every used block can be given back, and then
  the audit passes again without it, unless giving it back follows a link back of the first
  segment.  The audit does not look at that link, and giving the block back reports it.
-/
import GuardedHeap.Proofs.Relinking
import GuardedHeap.Proofs.Strung.Release

set_option autoImplicit false

namespace GuardedHeap

namespace Machine

variable {m n : Machine} {s : Segment} {t : Totals} {site : CallSite}

theorem open_of_stats (h : stats site m = .ok t n) : m.Open := by
  by_contra ho
  have hlocked : tryTotals site m = .error (.detected (.interruptsDisabled m.context.cpu)) m :=
    run_bind_error (run_enter_closed ho site)
  have hstats : stats site m = _ := run_tryCatch_error hlocked
  rw [hstats] at h
  cases h

/-- An audit that passes leaves everything but the journal as it was. -/
theorem totals_of_stats (hl : m.lock = .unlocked) (h : stats site m = .ok t n) :
    m.arena.totals = .ok t ∧ ∃ j, n = { m with journal := j } := by
  obtain ⟨j, hrun⟩ := exists_tryTotals hl (open_of_stats h) site
  unfold stats reporting at h
  cases htotals : m.arena.totals with
  | ok t' =>
    rw [htotals] at hrun
    cases h.symm.trans (run_tryCatch_ok hrun)
    exact ⟨rfl, j, rfl⟩
  | error e =>
    rw [htotals] at hrun
    have herror := h.symm.trans (run_tryCatch_error hrun)
    cases e <;> cases herror

/-- A passed audit is enough to give any used block back, whatever memory holds, unless
that follows a link back of the first segment.  The audit passes that link, and giving the
block back reports it.  Otherwise the block is gone, and the audit passes again. -/
theorem frees_audited (hl : m.lock = .unlocked) (htop : m.arena.top ≤ m.arena.window.ceiling)
    (hsizes : ∀ s ∈ m.arena.walk.segments, s.header.size % granule = 0 ∧
      (s.header.used = true → granule ≤ s.header.size))
    (haudit : stats site m = .ok t n) (hs : s ∈ m.arena.walk.segments)
    (hu : s.header.used = true) (site' : CallSite) :
    (∀ v, (m.arena.headerAt 0).prev = some v → m.arena.Heeds s →
      n.Reports site' (.brokenLink (m.arena.addr 0) (m.arena.addr v) (m.arena.addr m.arena.top))
        (free .none (m.arena.payload s.offset) site' n)) ∧
    ((∀ v, (m.arena.headerAt 0).prev = some v → ¬ m.arena.Heeds s) →
      ∃ k, free .none (m.arena.payload s.offset) site' n = .ok true k ∧ m.Withdraws s k) := by
  have ho := open_of_stats haudit
  obtain ⟨htotals, j, rfl⟩ := totals_of_stats hl haudit
  have hword : m.arena.top < 2 ^ 64 := by
    have := Arena.top_lt htop
    omega
  obtain ⟨offs, hc, -⟩ := Arena.chained_of_totals hword htotals
  have hwalk : m.arena.walk.segments = offs.map m.arena.segmentAt :=
    congrArg Walk.segments (hc.walk hword)
  rw [hwalk] at hsizes hs
  obtain ⟨hstrung, hparts, hend⟩ := hc.strung htop fun s hs => (hsizes s hs).1
  have hpos : 0 < s.header.size := by
    have := (hsizes s hs).2 hu
    simp only [granule] at this
    omega
  obtain ⟨pre, post, hsplit⟩ := List.append_of_mem hs
  rw [hsplit] at hstrung hparts hend
  refine ⟨fun v hprev hheeds => reports_strung (m := { m with journal := j }) hl ho hstrung hu
    hpos hprev hheeds site', fun hclear => ?_⟩
  have hreach : reach (pre ++ s :: post) = some m.arena.top := by
    unfold reach
    rw [List.getLast?_eq_some_getLast hstrung.ne_nil] at hend ⊢
    exact congrArg some (hend _ rfl)
  obtain ⟨k, ss, htrims, hfree, hcases⟩ := free_strung (m := { m with journal := j }) hl ho
    hstrung hparts hreach hu hpos hclear site'
  have htop' : reach ss = some k.arena.top := by
    rcases hcases with ⟨-, -, hraised⟩ | ⟨-, hsame, hkept⟩
    · exact hraised
    · rw [hkept, hsame]
  obtain ⟨hlive, hmaps, haudits⟩ :=
    htrims.withdraws (m := { m with journal := j }) hstrung hl ho htop'
  exact ⟨k, hfree.trans (if_pos htop'), hlive, hmaps, haudits⟩

/-- A small heap with a gap between two blocks, the first of which names a segment in front
of it. -/
def backlinked : Machine :=
  { World.smallGap.machine with
    arena := { World.smallGap.machine.arena with
      memory := World.smallGap.machine.arena.memory.writeWord 16 8 4096 } }

/-- The first segment of it. -/
def backlinkedFirst : Segment := ⟨0, ⟨true, 112, some 4096, some 176, none, none, none⟩⟩

theorem state_backlinked : backlinked.lock = .unlocked ∧
    backlinked.arena.window.floor ≤ backlinked.arena.top ∧
    backlinked.arena.top ≤ backlinked.arena.window.ceiling ∧
    (backlinked.arena.headerAt 0).prev = some 4096 ∧
    backlinked.arena.payload backlinkedFirst.offset = 0x10000040 := by
  decide +kernel

theorem segments_backlinked : backlinked.arena.walk.segments =
    [backlinkedFirst, World.gapSecond, World.gapThird, World.gapTail] := by decide +kernel

theorem sizes_backlinked : ∀ s ∈ backlinked.arena.walk.segments,
    s.header.size % granule = 0 ∧ (s.header.used = true → granule ≤ s.header.size) := by
  rw [segments_backlinked]
  decide

theorem audited_backlinked :
    stats ⟨5⟩ backlinked = .ok ⟨224, 2, 3616, 2, 4096, 1⟩ (after (stats ⟨5⟩) backlinked) :=
  run_of_returns (by decide +kernel)

theorem maps_withMemory (memory : Memory) (h : m.platform.Maps (pagesBelow m.arena.top)) :
    Platform.Maps { m with arena := { m.arena with memory := memory } }.platform
      (pagesBelow { m with arena := { m.arena with memory := memory } }.arena.top) := h

theorem maps_backlinked : backlinked.platform.Maps (pagesBelow backlinked.arena.top) := by
  obtain ⟨bs, hheld⟩ := World.reachable_smallGap.held
  unfold backlinked
  exact maps_withMemory _ hheld.served.sound.backed.maps

/-- The audit of it passes.  The first block cannot be given back, the other one can. -/
theorem frees_audited_backlinked :
    Reports (after (stats ⟨5⟩) backlinked) ⟨6⟩ (.brokenLink (backlinked.arena.addr 0)
        (backlinked.arena.addr 4096) (backlinked.arena.addr backlinked.arena.top))
      (free .none (backlinked.arena.payload 0) ⟨6⟩ (after (stats ⟨5⟩) backlinked)) ∧
    ∃ k, free .none (backlinked.arena.payload 352) ⟨6⟩ (after (stats ⟨5⟩) backlinked) =
        .ok true k ∧
      backlinked.Withdraws World.gapThird k := by
  obtain ⟨hl, -, htop, hprev, -⟩ := state_backlinked
  have hfirst := (frees_audited (s := backlinkedFirst) hl htop sizes_backlinked audited_backlinked
    (by simp [segments_backlinked]) rfl ⟨6⟩).1 4096 hprev (.inl rfl)
  have hthird := (frees_audited (s := World.gapThird) hl htop sizes_backlinked audited_backlinked
    (by simp [segments_backlinked]) rfl ⟨6⟩).2 fun v _ hheeds => by
      rcases hheeds with hzero | ⟨-, hback⟩
      · cases hzero
      · cases hback
  exact ⟨hfirst, hthird⟩

/-- So a passed audit alone is not enough. -/
theorem not_frees_backlinked :
    ¬ ∀ m : Machine, m.lock = .unlocked → m.arena.window.floor ≤ m.arena.top →
      m.arena.top ≤ m.arena.window.ceiling → m.platform.Maps (pagesBelow m.arena.top) →
      (∀ s ∈ m.arena.walk.segments,
        s.header.size % granule = 0 ∧ (s.header.used = true → granule ≤ s.header.size)) →
      ∀ site t n, stats site m = .ok t n → ∀ s ∈ m.arena.walk.segments, s.header.used = true →
        ∃ k, free .none (m.arena.payload s.offset) site n = .ok true k := by
  intro h
  obtain ⟨hl, hfloor, hceiling, -, hpayload⟩ := state_backlinked
  obtain ⟨k, hfree⟩ := h backlinked hl hfloor hceiling maps_backlinked sizes_backlinked ⟨5⟩ _ _
    audited_backlinked backlinkedFirst (by simp [segments_backlinked]) rfl
  have hfails : fails (free .none 0x10000040 ⟨5⟩) (after (stats ⟨5⟩) backlinked)
      (.fatal ⟨.brokenLink 0x10000000 0x10001000 0x10001000, ⟨⟨5⟩, ⟨1⟩, 0⟩⟩) = true := by
    decide +kernel
  rw [hpayload] at hfree
  cases hfree.symm.trans (run_of_fails hfails)

end Machine

end GuardedHeap
