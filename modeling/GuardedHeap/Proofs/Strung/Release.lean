/-
  Proofs/Strung/Release.lean --- giving a block of a string back.

  WHAT THIS FILE IS FOR.  Before a block is given back, its links and those of its free
  neighbors are followed.  In a string they lead where they should, but for the link back
  of the first segment, which nothing else ever looks at.

  WHAT IS PROVED.  Giving a block back fails where it follows that link and the link is
  there.  In all other cases the block is gone afterwards, and the audit at the end passes
  where the string reaches the top, as it does once its end was trimmed.
-/
import GuardedHeap.Proofs.Strung.Edit

set_option autoImplicit false

namespace GuardedHeap

/-- Giving a segment back follows the link back of the first one: it is that segment, or
the one behind it where it is free. -/
def Arena.Heeds (a : Arena) (s : Segment) : Prop :=
  s.offset = 0 ∨ (a.headerAt 0).used = false ∧ s.header.prev = some 0

namespace Arena.Strung

variable {a : Arena} {pre post : List Segment} {s p : Segment}

/-! ## The look -/

theorem headerAt_zero (h : a.Strung (s :: post)) : a.headerAt 0 = s.header := by
  rw [← h.head_offset]
  exact (h.held s List.mem_cons_self).load_eq

theorem predecessor_first (h : a.Strung (s :: post)) :
    a.predecessor s.offset s.header = match (a.headerAt 0).prev with
      | none => .ok none
      | some v => .error (a.brokenLink 0 v) := by
  rw [h.headerAt_zero, h.head_offset]
  unfold Arena.predecessor
  cases s.header.prev with
  | none => rfl
  | some v => exact if_neg (fun hlt => Nat.not_lt_zero v hlt.1)

/-- A segment that is not followed back to the first one is led back to the one in front. -/
theorem predecessor_eq (h : a.Strung (pre ++ s :: post))
    (hs : ∀ v, (a.headerAt 0).prev = some v → ¬ a.Heeds s) :
    a.predecessor s.offset s.header = .ok (pre.getLast?.map Segment.offset) := by
  rcases List.eq_nil_or_concat pre with rfl | ⟨front, p, rfl⟩
  · have hfirst : a.Strung (s :: post) := h
    rw [hfirst.predecessor_first]
    cases hprev : (a.headerAt 0).prev with
    | none => rfl
    | some v => exact absurd (.inl hfirst.head_offset) (hs v hprev)
  · rw [List.concat_eq_append] at *
    rw [h.predecessor, List.getLast?_concat]
    rfl

/-- The look back ends at the first segment, whose link back it follows if that is free and
in front. -/
theorem lookAt_back (h : a.Strung ((pre ++ [p]) ++ s :: post)) :
    Machine.lookAt a a.predecessor (some p.offset) =
      match (a.headerAt 0).prev with
      | none => .ok ()
      | some v =>
        if pre = [] ∧ p.header.used = false then .error (a.brokenLink 0 v) else .ok () := by
  have hp : a.Strung (pre ++ p :: s :: post) := by simpa using h
  unfold Machine.lookAt
  simp only [hp.read, bind, Except.bind]
  cases hu : p.header.used with
  | true => cases (a.headerAt 0).prev <;> simp
  | false =>
    rcases List.eq_nil_or_concat pre with rfl | ⟨front, o, rfl⟩
    · have hfirst : a.Strung (p :: s :: post) := hp
      rw [if_neg Bool.false_ne_true, hfirst.predecessor_first]
      cases (a.headerAt 0).prev <;> simp
    · rw [List.concat_eq_append] at *
      have ho : a.Strung (front ++ o :: p :: s :: post) := by simpa using hp
      rw [if_neg Bool.false_ne_true, hp.predecessor]
      simp only [ho.read]
      cases (a.headerAt 0).prev <;> simp

/-- The look ahead finds nothing wrong. -/
theorem lookAt_ahead (h : a.Strung (pre ++ s :: post)) :
    Machine.lookAt a a.successor (post.head?.map Segment.offset) = .ok () := by
  refine Machine.lookAt_eq_ok fun off hoff => ?_
  cases post with
  | nil => cases hoff
  | cons y rest =>
    cases hoff
    have hy : a.Strung ((pre ++ [s]) ++ y :: rest) := by simpa using h
    refine ⟨y.header, _, hy.read, hy.successor, fun off hoff => ?_⟩
    cases rest with
    | nil => cases hoff
    | cons z rest =>
      cases hoff
      have hz : a.Strung ((pre ++ [s] ++ [y]) ++ z :: rest) := by simpa using hy
      exact ⟨z.header, hz.read⟩

theorem prev_eq (h : a.Strung ((pre ++ [p]) ++ s :: post)) : s.header.prev = some p.offset := by
  have hp : a.Strung (pre ++ p :: s :: post) := by simpa using h
  exact (List.isChain_append_cons_cons.mp hp.meets).2.1.prev_eq

/-- The look back of a segment that has one in front follows the link back of the first
segment where the one in front is free and the first. -/
theorem heeds_iff (h : a.Strung ((pre ++ [p]) ++ s :: post)) :
    a.Heeds s ↔ pre = [] ∧ p.header.used = false := by
  have hp : a.Strung (pre ++ p :: s :: post) := by simpa using h
  unfold Arena.Heeds
  rw [h.prev_eq]
  constructor
  · rintro (hzero | ⟨hfree, hprev⟩)
    · exact absurd hzero h.offset_ne_zero
    · have hoff : p.offset = 0 := Option.some.inj hprev
      rcases List.eq_nil_or_concat pre with rfl | ⟨front, o, rfl⟩
      · have hfirst : a.Strung (p :: s :: post) := hp
        rw [hfirst.headerAt_zero] at hfree
        exact ⟨rfl, hfree⟩
      · rw [List.concat_eq_append] at hp
        exact absurd hoff hp.offset_ne_zero
  · rintro ⟨rfl, hfree⟩
    have hfirst : a.Strung (p :: s :: post) := hp
    rw [hfirst.headerAt_zero, hfirst.head_offset]
    exact .inr ⟨hfree, rfl⟩

/-- The look finds nothing wrong where it does not follow a link back of the first
segment. -/
theorem inspectNeighbors (h : a.Strung (pre ++ s :: post))
    (hs : ∀ v, (a.headerAt 0).prev = some v → ¬ a.Heeds s) :
    Machine.inspectNeighbors a (pre.getLast?.map Segment.offset)
      (post.head?.map Segment.offset) = .ok () := by
  have hback : Machine.lookAt a a.predecessor (pre.getLast?.map Segment.offset) = .ok () := by
    rcases List.eq_nil_or_concat pre with rfl | ⟨front, p, rfl⟩
    · rfl
    · rw [List.concat_eq_append] at *
      rw [List.getLast?_concat, Option.map_some, h.lookAt_back]
      cases hprev : (a.headerAt 0).prev with
      | none => rfl
      | some v => exact if_neg fun hc => hs v hprev (h.heeds_iff.mpr hc)
  rw [Machine.inspectNeighbors_eq, hback]
  exact h.lookAt_ahead

/-- The look names a link back of the first segment where it follows it. -/
theorem look_eq_error (h : a.Strung (pre ++ s :: post)) {v : Nat}
    (hprev : (a.headerAt 0).prev = some v) (hs : a.Heeds s) :
    a.look s.offset s.header = .error (a.brokenLink 0 v) := by
  unfold Arena.look
  rcases List.eq_nil_or_concat pre with rfl | ⟨front, p, rfl⟩
  · have hfirst : a.Strung (s :: post) := h
    rw [hfirst.predecessor_first, hprev]
    rfl
  · rw [List.concat_eq_append] at *
    rw [h.predecessor, h.successor]
    simp only [bind, Except.bind]
    rw [Machine.inspectNeighbors_eq, h.lookAt_back, hprev]
    dsimp only
    rw [if_pos (h.heeds_iff.mp hs)]
    rfl

/-- The payload address of a segment that holds a byte leads back to it. -/
theorem locate_payload (h : a.Strung (pre ++ s :: post)) (hsize : 0 < s.header.size) :
    a.locate (a.payload s.offset) = .ok s.offset ∧ a.payload s.offset ≠ 0 := by
  have hstop : s.offset + headerSize + s.header.size ≤ a.top := h.stop_le
  have hbase := a.window.base_pos
  have haligned := h.offset_aligned s h.mem
  have hpayload : a.payload s.offset = a.window.base + (s.offset + headerSize) :=
    addr_eq h.top_le (by omega)
  refine ⟨?_, by omega⟩
  have hback : a.window.base + (s.offset + headerSize) - (a.window.base + 0) - headerSize =
      s.offset := by omega
  rw [locate_eq, addr_eq h.top_le (Nat.zero_le _), addr_eq h.top_le (Nat.le_refl _), hpayload,
    if_pos (by omega), hback, if_pos haligned]

end Arena.Strung

namespace Machine

variable {m n : Machine} {ss ss' pre post front back : List Segment} {s c : Segment}

/-! ## The trim -/

/-- One machine holds a string that has the used segments of a string of another. -/
structure Trims (m : Machine) (ss : List Segment) (n : Machine) (ss' : List Segment) : Prop where
  strung : n.arena.Strung ss'
  parts : ss'.IsChain Segment.Parts
  usedIn_eq : usedIn ss' = usedIn ss
  around : m.Around n
  maps : m.platform.Maps (pagesBelow m.arena.top) → n.platform.Maps (pagesBelow n.arena.top)

/-- A block is gone from a heap, whose audit passes. -/
structure Withdraws (m : Machine) (s : Segment) (n : Machine) : Prop where
  liveBlocks_eq : n.arena.liveBlocks = m.arena.liveBlocks.filter fun x => x.1 ≠ s.offset
  maps : m.platform.Maps (pagesBelow m.arena.top) → n.platform.Maps (pagesBelow n.arena.top)
  audits : ∀ site, ∃ t k, stats site n = .ok t k

/-- The audit of a string without adjacent free segments passes or finds it too short. -/
theorem stats_strung {stop : Nat} (hl : m.lock = .unlocked) (ho : m.Open) (h : m.arena.Strung ss)
    (hparts : ss.IsChain Segment.Parts) (hreach : reach ss = some stop) (site : CallSite) :
    (stop = m.arena.top → ∃ t k, stats site m = .ok t k) ∧
      (stop ≠ m.arena.top →
        m.Reports site (.inconsistent (m.arena.addr m.arena.last) .lastShort) (stats site m)) := by
  obtain ⟨front, l, rfl⟩ : ∃ front l, ss = front ++ [l] :=
    ⟨_, _, (List.dropLast_append_getLast h.ne_nil).symm⟩
  rw [reach_concat, Option.some.injEq] at hreach
  have htotals := h.totals hparts
  rw [hreach, (h.final l (by simp)).2.1] at htotals
  constructor
  · intro heq
    rw [if_pos heq] at htotals
    obtain ⟨j, hrun⟩ := run_stats_of_totals hl ho site htotals
    exact ⟨_, _, hrun⟩
  · intro hne
    rw [if_neg hne] at htotals
    obtain ⟨j, hrun⟩ := exists_tryTotals hl ho site
    rw [htotals] at hrun
    exact ⟨_, run_tryCatch_error hrun⟩

namespace Trims

theorem liveBlocks_eq (ht : m.Trims (pre ++ post) n ss) (h : m.arena.Strung (pre ++ s :: post)) :
    n.arena.liveBlocks = m.arena.liveBlocks.filter fun x => x.1 ≠ s.offset := by
  rw [ht.strung.liveBlocks_eq, ht.usedIn_eq, h.liveBlocks_eq, h.filter_usedIn]

theorem withdraws (ht : m.Trims (pre ++ post) n ss) (h : m.arena.Strung (pre ++ s :: post))
    (hl : m.lock = .unlocked) (ho : m.Open) (hreach : reach ss = some n.arena.top) :
    m.Withdraws s n := by
  have hopen : n.Open := by
    unfold Open
    rw [ht.around.context_eq]
    exact ho
  exact ⟨ht.liveBlocks_eq h, ht.maps, fun site =>
    (stats_strung (ht.around.lock_eq.trans hl) hopen ht.strung ht.parts hreach site).1 rfl⟩

end Trims

/-- A string that ends at the new top stays when the top comes down to it. -/
theorem run_moveTop_trims {b : Arena} {newTop : Nat} (ss : List Segment) (h : b.Strung ss')
    (hparts : ss'.IsChain Segment.Parts) (hused : usedIn ss' = usedIn ss)
    (hend : reach ss' = some newTop) (hfloor : m.arena.window.floor ≤ newTop)
    (hwindow : b.window = m.arena.window) (htop : b.top = m.arena.top) :
    ∃ n, moveTop .none newTop { m with arena := b } = .ok b.top n ∧ m.Trims ss n ss' ∧
      reach ss' = some n.arena.top := by
  obtain ⟨l, hl, hstop⟩ := Option.map_eq_some_iff.mp hend
  have hdown : newTop ≤ b.top := hstop ▸ (h.final l hl).2.2
  obtain ⟨n, memory, hrun, harena, hmemory, haround, hmaps⟩ :=
    run_moveTop_lowers (m := { m with arena := b }) (hwindow ▸ hfloor) hdown h.top_le
  refine ⟨n, hrun, ⟨?_, hparts, hused, ?_, fun hm => ?_⟩, by rw [harena]; exact hend⟩
  · rw [harena]
    refine h.carry newTop (fun s hs => ?_) (fun i _ hi => ?_) rfl (Nat.le_refl _)
      (Nat.le_trans hdown h.top_le)
    · rw [hl] at hs
      cases hs
      exact Nat.le_of_eq hstop
    · exact (hmemory i).trans (if_neg (by omega))
  · have hswap : m.Around { m with arena := b } := ⟨hwindow, rfl, rfl, rfl, rfl, rfl⟩
    exact hswap.trans haround
  · rw [harena]
    exact hmaps (htop ▸ hm)

/-- What is not the end of a string is not trimmed. -/
theorem run_trim_inner (h : m.arena.Strung (front ++ c :: s :: back)) :
    trim .none c.offset m = .ok () m := by
  have hlast : c.offset ≠ m.arena.last := by
    obtain ⟨xs, l, hl⟩ : ∃ xs l, s :: back = xs ++ [l] :=
      ⟨_, _, (List.dropLast_append_getLast (List.cons_ne_nil s back)).symm⟩
    have habove := h.above l (hl ▸ List.mem_append_right xs List.mem_cons_self)
    have hroom := c.offset_add_le
    have hend : (front ++ c :: s :: back).getLast? = some l := by
      rw [hl, ← List.cons_append, ← List.append_assoc, List.getLast?_concat]
    rw [← (h.final l hend).2.1]
    simp only [headerSize] at hroom
    omega
  unfold trim
  rw [run_bind_ok (run_get m)]
  dsimp only
  rw [if_neg hlast]
  rfl

/-- Removing the segment at an offset, whose link back is given, from the end of the list. -/
def removeEnd (a : Arena) (off : Nat) : Option Nat → HeapM Unit
  | none => throw (a.brokenLink off Word.largest)
  | some prev => do
    let before ← a.read prev
    onArena do
      Arena.writeHeader prev { before with next := none }
      Arena.setLast prev
    let _ ← moveTop .none off

/-- The trim of the free end of a string depends on where it starts and stops. -/
theorem run_trim_last (h : m.arena.Strung (front ++ [c])) (hfree : c.header.used = false) :
    trim .none c.offset m =
      (if c.offset ≠ 0 ∧ m.arena.window.floor ≤ c.offset then do
        removeEnd m.arena c.offset (← m.arena.predecessor c.offset c.header)
      else if m.arena.window.floor < c.stop then do
        let size := m.arena.window.floor - (c.offset + headerSize)
        onArena (Arena.writeHeader c.offset { c.header with size := size })
        let _ ← moveTop .none (c.offset + headerSize + size)
      else pure () : HeapM Unit) m := by
  have htop := h.top_lt
  have hstop := h.stop_le
  have hdef : c.stop = c.offset + headerSize + c.header.size := rfl
  have hlast := (h.final c (by simp)).2.1
  have hunused : ¬ c.header.used = true := by simp [hfree]
  have hpayload : Word.add c.offset headerSize = .ok (c.offset + headerSize) :=
    Word.add_eq_ok.mpr ⟨rfl, by omega⟩
  have hend : Word.add (c.offset + headerSize) c.header.size = .ok c.stop :=
    Word.add_eq_ok.mpr ⟨rfl, by omega⟩
  unfold trim
  rw [run_bind_ok (run_get m)]
  dsimp only
  rw [if_pos hlast, h.read, run_bind_ok (run_lift_ok _ _), if_neg hunused]
  by_cases hremove : c.offset ≠ 0 ∧ m.arena.window.floor ≤ c.offset
  · rw [if_pos hremove, if_pos hremove]
    cases m.arena.predecessor c.offset c.header with
    | error e => rfl
    | ok prev => cases prev <;> rfl
  · rw [if_neg hremove, if_neg hremove, hpayload, run_bind_ok (run_lift_ok _ _), hend,
      run_bind_ok (run_lift_ok _ _)]

/-- A free end at the reserved minimum or above is removed. -/
theorem run_trim_removes (h : m.arena.Strung (front ++ [c])) (hfree : c.header.used = false)
    (hparts : (front ++ [c]).IsChain Segment.Parts) (hoff : c.offset ≠ 0)
    (hfloor : m.arena.window.floor ≤ c.offset) :
    ∃ n ss, trim .none c.offset m = .ok () n ∧ m.Trims (front ++ [c]) n ss ∧
      reach ss = some n.arena.top := by
  obtain ⟨pre, p, rfl⟩ : ∃ pre p, front = pre ++ [p] := by
    rcases List.eq_nil_or_concat front with rfl | ⟨pre, p, rfl⟩
    · exact absurd (Arena.Strung.head_offset h) hoff
    · exact ⟨pre, p, List.concat_eq_append⟩
  have hp : m.arena.Strung (pre ++ p :: [c]) := by simpa using h
  have hmeets := (List.isChain_append_cons_cons.mp hp.meets).2.1
  let q : Segment := ⟨p.offset, { p.header with next := none }⟩
  let b : Arena := { m.arena with
    memory := Header.store m.arena.memory p.offset q.header
    last := p.offset }
  have hs : b.Strung (pre ++ [q]) :=
    hp.endAt rfl rfl (Nat.le_refl _) (hp.aligned p hp.mem)
  have hcore : (pre ++ [q]).map Segment.core = (pre ++ [p]).map Segment.core := by
    rw [List.map_append, List.map_append]
    rfl
  obtain ⟨n, hrun, htrims, hreach⟩ := run_moveTop_trims (m := m) (pre ++ [p] ++ [c]) hs
    (isChain_parts_congr (map_used_congr hcore.symm) (List.isChain_append.mp hparts).1)
    (by rw [usedIn_congr hcore, usedIn_append (pre ++ [p]), usedIn_cons_free hfree]
        exact (List.append_nil _).symm)
    ((reach_concat pre q).trans (congrArg some hmeets.offset_eq.symm)) hfloor rfl rfl
  refine ⟨n, _, ?_, htrims, hreach⟩
  rw [run_trim_last h hfree, if_pos ⟨hoff, hfloor⟩, h.predecessor, run_bind_ok (run_lift_ok _ _),
    removeEnd, hp.read, run_bind_ok (run_lift_ok _ _)]
  refine (run_bind_ok (run_onArena_ok (a := b) rfl)).trans ?_
  rw [run_bind_ok hrun]
  rfl

/-- A free end that straddles the reserved minimum is cut. -/
theorem run_trim_cuts (h : m.arena.Strung (front ++ [c])) (hfree : c.header.used = false)
    (hparts : (front ++ [c]).IsChain Segment.Parts)
    (hremove : ¬ (c.offset ≠ 0 ∧ m.arena.window.floor ≤ c.offset))
    (hfloor : m.arena.window.floor < c.stop) :
    ∃ n ss, trim .none c.offset m = .ok () n ∧ m.Trims (front ++ [c]) n ss ∧
      reach ss = some n.arena.top := by
  have hdef : c.stop = c.offset + headerSize + c.header.size := rfl
  have haligned := h.offset_aligned c h.mem
  have hpage := m.arena.window.floor_aligned
  obtain ⟨hnext, hlast, -⟩ := h.final c (by simp)
  let d : Segment :=
    ⟨c.offset, { c.header with size := m.arena.window.floor - (c.offset + headerSize) }⟩
  have hd : d.header.size = m.arena.window.floor - (c.offset + headerSize) := rfl
  have hstop : d.stop = c.offset + headerSize + d.header.size := rfl
  let b : Arena := { m.arena with
    memory := Header.store m.arena.memory c.offset d.header
    last := c.offset }
  have hs : b.Strung (front ++ [d]) := by
    refine h.endAt rfl hnext ?_ ?_
    · omega
    · simp only [granule, headerSize, pageSize] at *
      omega
  have hused : usedIn (front ++ [d]) = usedIn (front ++ [c]) := by
    rw [usedIn_append, usedIn_append, usedIn_cons_free hfree, usedIn_cons_free (s := d) hfree]
  obtain ⟨n, hrun, htrims, hreach⟩ := run_moveTop_trims (m := m) (front ++ [c]) hs
    (isChain_parts_congr (by rw [List.map_append, List.map_append]; rfl) hparts) hused
    (reach_concat front d) (by omega) rfl rfl
  refine ⟨n, _, ?_, htrims, hreach⟩
  have hedit : Arena.writeHeader c.offset d.header m.arena = .ok () b :=
    congrArg (fun l => EStateM.Result.ok () (⟨b.window, b.top, l, b.memory⟩ : Arena)) hlast.symm
  rw [run_trim_last h hfree, if_neg hremove, if_pos hfloor]
  refine (run_bind_ok (run_onArena_ok hedit)).trans ?_
  exact (run_bind_ok hrun).trans rfl

/-- How the trim of a string that ended at `stop` went.  Where `final` says that its free
segment was the end of it and the end was above the reserved minimum, the string reaches the
new top.  Otherwise neither moved. -/
def Lowers (m n : Machine) (ss : List Segment) (final : Prop) (stop : Nat) : Prop :=
  final ∧ m.arena.window.floor < stop ∧ reach ss = some n.arena.top ∨
    ¬ (final ∧ m.arena.window.floor < stop) ∧ n.arena.top = m.arena.top ∧ reach ss = some stop

/-- Trimming moves the top to the end of a string that ends in a free segment above the
reserved minimum, and leaves everything else alone. -/
theorem run_trim_strung {stop : Nat} (h : m.arena.Strung (front ++ c :: back))
    (hfree : c.header.used = false) (hparts : (front ++ c :: back).IsChain Segment.Parts)
    (hstop : reach (front ++ c :: back) = some stop) :
    ∃ n ss, trim .none c.offset m = .ok () n ∧ m.Trims (front ++ c :: back) n ss ∧
      m.Lowers n ss (back = []) stop := by
  have hkept : ¬ (back = [] ∧ m.arena.window.floor < stop) → trim .none c.offset m = .ok () m →
      ∃ n ss, trim .none c.offset m = .ok () n ∧ m.Trims (front ++ c :: back) n ss ∧
        m.Lowers n ss (back = []) stop := fun hno hrun =>
    ⟨m, _, hrun, ⟨h, hparts, rfl, Around.refl m, id⟩, .inr ⟨hno, rfl, hstop⟩⟩
  cases back with
  | cons y rest => exact hkept (fun hc => nomatch hc.1) (run_trim_inner h)
  | nil =>
    obtain rfl : c.stop = stop := Option.some.inj ((reach_concat front c).symm.trans hstop)
    by_cases hremove : c.offset ≠ 0 ∧ m.arena.window.floor ≤ c.offset
    · have hroom := c.offset_add_le
      have hfloor : m.arena.window.floor < c.stop := by
        simp only [headerSize] at hroom
        omega
      obtain ⟨n, ss, hrun, htrims, hreach⟩ :=
        run_trim_removes h hfree hparts hremove.1 hremove.2
      exact ⟨n, ss, hrun, htrims, .inl ⟨rfl, hfloor, hreach⟩⟩
    · by_cases hfloor : m.arena.window.floor < c.stop
      · obtain ⟨n, ss, hrun, htrims, hreach⟩ := run_trim_cuts h hfree hparts hremove hfloor
        exact ⟨n, ss, hrun, htrims, .inl ⟨rfl, hfloor, hreach⟩⟩
      · refine hkept (fun hc => hfloor hc.2) ?_
        rw [run_trim_last h hfree, if_neg hremove, if_neg hfloor]
        rfl

/-! ## The release -/

/-- Giving a block of a string back removes it from the used ones.  The end of the string
is trimmed where no block is left behind the one given back.  The audit at the end passes
where the string then reaches the top, and names the last segment where it does not. -/
theorem run_release_strung {stop : Nat} (h : m.arena.Strung (pre ++ s :: post))
    (hparts : (pre ++ s :: post).IsChain Segment.Parts)
    (hstop : reach (pre ++ s :: post) = some stop) (hu : s.header.used = true)
    (hs : ∀ v, (m.arena.headerAt 0).prev = some v → ¬ m.arena.Heeds s) (site : CallSite) :
    ∃ n ss, m.Trims (pre ++ post) n ss ∧
      releaseSegment .none s.offset site m =
        (if reach ss = some n.arena.top then .ok () n
        else .error (n.arena.inconsistent n.arena.last .lastShort) n) ∧
      m.Lowers n ss (usedIn post = []) stop := by
  obtain ⟨a, front, c, back, hrelease, hfree, hstrung, hin, hparts', hfront, hback, hreach⟩ :=
    h.exists_released hparts site
  obtain ⟨n, ss, htrim, htrims, hcases⟩ :=
    run_trim_strung (m := { m with arena := a }) hstrung hfree hparts' (hreach.trans hstop)
  obtain ⟨pre', l, rfl⟩ : ∃ pre' l, ss = pre' ++ [l] :=
    ⟨_, _, (List.dropLast_append_getLast htrims.strung.ne_nil).symm⟩
  have hlast := (htrims.strung.final l (by simp)).2.1
  have haudit := htrims.strung.totals htrims.parts
  have hused : ¬ (!s.header.used) = true := by simp [hu]
  refine ⟨n, _, ⟨htrims.strung, htrims.parts, ?_, ?_, ?_⟩, ?_, ?_⟩
  · rw [htrims.usedIn_eq, usedIn_append, usedIn_append, usedIn_cons_free hfree, hfront, hback]
  · exact (around_onArena hin).trans htrims.around
  · exact fun hm => htrims.maps (hin.top_eq.symm ▸ hm)
  · unfold releaseSegment
    rw [run_bind_ok (run_get m)]
    dsimp only
    rw [h.read, run_bind_ok (run_lift_ok _ _), if_neg hused, h.predecessor_eq hs,
      run_bind_ok (run_lift_ok _ _), h.successor, run_bind_ok (run_lift_ok _ _),
      h.inspectNeighbors hs, run_bind_ok (run_lift_ok _ _), run_bind_ok (run_onArena_ok hrelease),
      run_bind_ok htrim, run_bind_ok (run_get n), haudit, reach_concat, ← hlast]
    by_cases htop : l.stop = n.arena.top
    · rw [if_pos htop, if_pos (congrArg some htop)]
      rfl
    · rw [if_neg htop, if_neg (fun heq => htop (Option.some.inj heq))]
      rfl
  · have hnil : back = [] ↔ usedIn post = [] := by
      rw [← hback]
      exact eq_nil_iff_usedIn hfree (List.isChain_append.mp hparts').2.1
    unfold Lowers at hcases ⊢
    rw [← hnil, ← hin.top_eq, ← hin.window_eq]
    exact hcases

/-- Giving the payload of a used segment back releases it. -/
theorem free_strung {stop : Nat} (hl : m.lock = .unlocked) (ho : m.Open)
    (h : m.arena.Strung (pre ++ s :: post)) (hparts : (pre ++ s :: post).IsChain Segment.Parts)
    (hstop : reach (pre ++ s :: post) = some stop) (hu : s.header.used = true)
    (hsize : 0 < s.header.size) (hs : ∀ v, (m.arena.headerAt 0).prev = some v → ¬ m.arena.Heeds s)
    (site : CallSite) :
    ∃ n ss, m.Trims (pre ++ post) n ss ∧
      free .none (m.arena.payload s.offset) site m =
        (if reach ss = some n.arena.top then .ok true n
        else .error (.fatal ⟨.inconsistent (n.arena.addr n.arena.last) .lastShort,
          ⟨site, m.context.id, m.context.cpu⟩⟩) n) ∧
      m.Lowers n ss (usedIn post = []) stop := by
  obtain ⟨hlocate, haddress⟩ := h.locate_payload hsize
  obtain ⟨j, hfreed⟩ := exists_freed hl ho haddress hlocate site
  obtain ⟨n, ss, htrims, hrun, hcases⟩ :=
    run_release_strung (m := m.entered site j) h hparts hstop hu hs site
  have hlocked : n.lock.locked = true := by
    rw [htrims.around.lock_eq]
    rfl
  have htrims' : ∀ j', m.Trims (pre ++ post) (n.left j') ss := fun j' =>
    ⟨htrims.strung, htrims.parts, htrims.usedIn_eq, htrims.around.left hl j', htrims.maps⟩
  rw [hrun] at hfreed
  by_cases htop : reach ss = some n.arena.top
  · rw [if_pos htop] at hfreed
    obtain ⟨j', hfree⟩ := hfreed hlocked
    exact ⟨n.left j', ss, htrims' j', hfree.trans (if_pos htop).symm, hcases⟩
  · rw [if_neg htop] at hfreed
    obtain ⟨j', hfree⟩ := hfreed hlocked _ rfl
    rw [htrims.around.context_eq] at hfree
    exact ⟨n.left j', ss, htrims' j', hfree.trans (if_neg htop).symm, hcases⟩

/-- Giving a block back that is too close to the first segment reports the link back of
that. -/
theorem reports_strung {v : Nat} (hl : m.lock = .unlocked) (ho : m.Open)
    (h : m.arena.Strung (pre ++ s :: post)) (hu : s.header.used = true)
    (hsize : 0 < s.header.size) (hprev : (m.arena.headerAt 0).prev = some v)
    (hs : m.arena.Heeds s) (site : CallSite) :
    m.Reports site (.brokenLink (m.arena.addr 0) (m.arena.addr v) (m.arena.addr m.arena.top))
      (free .none (m.arena.payload s.offset) site m) :=
  let ⟨hlocate, haddress⟩ := h.locate_payload hsize
  reports_of_look hl ho haddress hlocate h.read hu (h.look_eq_error hprev hs) site

end Machine

end GuardedHeap
