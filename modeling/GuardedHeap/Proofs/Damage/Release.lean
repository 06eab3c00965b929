/-
  Proofs/Damage/Release.lean --- giving a block back in a damaged heap.

  WHAT THIS FILE IS FOR.  Giving a block back may merge it with both neighbors and trim
  the end of the row.  `Involved` are the segments all of that reads or relinks: the
  block, its neighbors, and what lies beyond those that are free.

  WHAT IS PROVED.  Where one of them lost its guard, giving the block back names it and
  changes nothing.  Where none of them did, the work is done as in the intact heap, and
  the audit at its end names the lowest of the others.
-/
import GuardedHeap.Proofs.Damage.Lockstep

set_option autoImplicit false

namespace GuardedHeap

/-! ## What a release depends on -/

/-- The segments that giving the segment `s` back depends on. -/
inductive Arena.Involved (a : Arena) (s : Segment) : Segment → Prop
  | itself : a.Involved s s
  /-- the one in front of it -/
  | prev {t : Segment} (ht : t.stop = s.offset) : a.Involved s t
  /-- the one behind it -/
  | next {t : Segment} (ht : t.offset = s.stop) : a.Involved s t
  /-- the one in front of that in front of it, if that is free -/
  | before {p t : Segment} (hp : p ∈ a.walk.segments) (hfree : p.header.used = false)
      (hs : p.stop = s.offset) (ht : t.stop = p.offset) : a.Involved s t
  /-- the one behind that behind it, if that is free -/
  | after {n t : Segment} (hn : n ∈ a.walk.segments) (hfree : n.header.used = false)
      (hs : n.offset = s.stop) (ht : t.offset = n.stop) : a.Involved s t

theorem Apart.not_mem {lost : List Nat} {off : Nat} {b : Block} (h : Apart lost off b.extent) :
    off ∉ lost := by
  intro hl
  have hoff := h off hl
  have hpos := b.extent_pos
  omega

/-- The segment in front of the rest of a row. -/
theorem exists_segment_before (front rest : List Block) :
    ∃ q : Option Segment, lastLink none 0 front = q.map Segment.offset ∧
      ∀ t, t ∈ q ↔ ∃ xs o, front = xs ++ [o] ∧ t = ⟨span xs, o.headerIn xs rest⟩ := by
  rcases List.eq_nil_or_concat front with rfl | ⟨xs, o, rfl⟩
  · exact ⟨none, rfl, fun t => by simp⟩
  · rw [List.concat_eq_append]
    refine ⟨some ⟨span xs, o.headerIn xs rest⟩, ?_, fun t => ⟨fun ht => ?_, ?_⟩⟩
    · rw [lastLink_concat, Nat.zero_add]
      rfl
    · cases ht
      exact ⟨xs, o, rfl, rfl⟩
    · rintro ⟨ys, x, h, rfl⟩
      obtain ⟨rfl, hx⟩ := List.append_inj' h rfl
      cases hx
      rfl

/-- The first segment of the rest of a row. -/
theorem exists_segment_after (pre rest : List Block) :
    ∃ q : Option Segment, firstLink (span pre) rest none = q.map Segment.offset ∧
      ∀ t, t ∈ q ↔ ∃ y ys, rest = y :: ys ∧ t = ⟨span pre, y.headerIn pre ys⟩ := by
  cases rest with
  | nil => exact ⟨none, rfl, fun t => by simp⟩
  | cons y ys =>
    refine ⟨some ⟨span pre, y.headerIn pre ys⟩, rfl, fun t => ⟨fun ht => ?_, ?_⟩⟩
    · cases ht
      exact ⟨y, ys, rfl, rfl⟩
    · rintro ⟨z, zs, h, rfl⟩
      cases h
      rfl

theorem stop_segment (xs : List Block) (x : Block) (ys : List Block) :
    Segment.stop ⟨span xs, x.headerIn xs ys⟩ = span (xs ++ [x]) := by
  rw [span_concat]
  exact Nat.add_assoc _ _ _

theorem cut_of_stop {xs ys pre rest : List Block} {x : Block}
    (h : xs ++ x :: ys = pre ++ rest)
    (hs : Segment.stop ⟨span xs, x.headerIn xs ys⟩ = span pre) : pre = xs ++ [x] ∧ rest = ys := by
  rw [stop_segment] at hs
  have happend : (xs ++ [x]) ++ ys = pre ++ rest := by simpa using h
  obtain ⟨hpre, hrest⟩ := append_inj_of_span happend hs
  exact ⟨hpre.symm, hrest.symm⟩

namespace Arena.Lists

variable {lost : List Nat} {guard : Nat → Nat} {a a' : Arena} {pre post : List Block} {b : Block}

/-- The look at a neighbor reads what it depends on, or names what of it lost its
guard. -/
theorem lookAt_cases {follow : Nat → Header → Except Fault (Option Nat)} (p : Segment)
    {beyond : Option Segment}
    (hp : a'.read p.offset = if p.offset ∈ lost then .error (.detected (a.corruption guard p))
      else .ok p.header)
    (hf : follow p.offset p.header = .ok (beyond.map Segment.offset))
    (hq : ∀ q ∈ beyond, a'.read q.offset =
      if q.offset ∈ lost then .error (.detected (a.corruption guard q)) else .ok q.header) :
    (Machine.lookAt a' follow (some p.offset) = .ok () ∧ p.offset ∉ lost ∧
        (p.header.used = false → ∀ q ∈ beyond, q.offset ∉ lost)) ∨
      ∃ t, (t = p ∨ p.header.used = false ∧ t ∈ beyond) ∧ t.offset ∈ lost ∧
        Machine.lookAt a' follow (some p.offset) =
          .error (.detected (a.corruption guard t)) := by
  unfold Machine.lookAt
  dsimp only
  rw [hp]
  by_cases hlost : p.offset ∈ lost
  · rw [if_pos hlost]
    exact Or.inr ⟨p, Or.inl rfl, hlost, rfl⟩
  · rw [if_neg hlost]
    simp only [bind, Except.bind]
    by_cases hu : p.header.used = true
    · rw [if_pos hu]
      exact Or.inl ⟨rfl, hlost, fun h => by rw [hu] at h; cases h⟩
    · rw [if_neg hu, hf]
      cases beyond with
      | none => exact Or.inl ⟨rfl, hlost, fun _ _ h => nomatch h⟩
      | some q =>
        simp only [Option.map_some, hq q rfl]
        by_cases hbeyond : q.offset ∈ lost
        · rw [if_pos hbeyond]
          exact Or.inr ⟨q, Or.inr ⟨Bool.eq_false_iff.mpr hu, rfl⟩, hbeyond, rfl⟩
        · rw [if_neg hbeyond]
          refine Or.inl ⟨rfl, hlost, fun _ q' hq' => ?_⟩
          cases hq'
          exact hbeyond

/-- The look back reads what it depends on, or names what of it lost its guard. -/
theorem lookAt_prev_overwritten (hl : a.Lists (pre ++ b :: post))
    (ho : a.Overwritten lost guard a') (hrow : Listed lost (pre ++ b :: post)) :
    (Machine.lookAt a' a'.predecessor (lastLink none 0 pre) = .ok () ∧ ClearBack lost pre) ∨
      ∃ t ∈ a.walk.segments, a.Involved ⟨span pre, b.headerIn pre post⟩ t ∧ t.offset ∈ lost ∧
        Machine.lookAt a' a'.predecessor (lastLink none 0 pre) =
          .error (.detected (a.corruption guard t)) := by
  rcases List.eq_nil_or_concat pre with rfl | ⟨front, p, rfl⟩
  · exact Or.inl ⟨rfl, fun _ _ h => by simp at h, fun _ _ _ h => by simp at h⟩
  · rw [List.concat_eq_append] at *
    have hp := concat_iff.mp hl
    have hrow' : Listed lost (front ++ p :: b :: post) := by simpa using hrow
    have hmem := hl.mem_walk_iff.mpr ⟨front, p, b :: post, by simp, rfl⟩
    obtain ⟨q, hlink, hq⟩ := exists_segment_before front (p :: b :: post)
    have hfollow := hp.predecessor
    rw [← ho.predecessor_eq, hlink] at hfollow
    have hbeyond : ∀ t ∈ q, a'.read t.offset = if t.offset ∈ lost then
        .error (.detected (a.corruption guard t)) else .ok t.header := by
      intro t ht
      obtain ⟨xs, o, rfl, rfl⟩ := (hq t).mp ht
      exact (concat_iff.mp hp).read_overwritten ho (by simpa using hrow')
    rw [lastLink_concat, Nat.zero_add]
    rcases lookAt_cases ⟨span front, p.headerIn front (b :: post)⟩
        (hp.read_overwritten ho hrow') hfollow hbeyond with
      ⟨hok, hkept, hbefore⟩ | ⟨t, rfl | ⟨hfree, ht⟩, hlost, herror⟩
    · refine Or.inl ⟨hok, fun xs x h => ?_, fun xs o x h hfree => ?_⟩
      · obtain ⟨rfl, hx⟩ := List.append_inj' h rfl
        cases hx
        exact hrow'.apart hkept
      · obtain ⟨rfl, hx⟩ := List.append_inj' h rfl
        cases hx
        have hfront : Listed lost (xs ++ o :: p :: b :: post) := by simpa using hrow'
        exact hfront.apart (hbefore hfree _ ((hq _).mpr ⟨xs, o, rfl, rfl⟩))
    · exact Or.inr ⟨_, hmem, .prev (stop_segment _ _ _), hlost, herror⟩
    · obtain ⟨xs, o, rfl, rfl⟩ := (hq t).mp ht
      exact Or.inr ⟨_, hl.mem_walk_iff.mpr ⟨xs, o, p :: b :: post, by simp, rfl⟩,
        .before hmem hfree (stop_segment _ _ _) (stop_segment _ _ _), hlost, herror⟩

/-- So does the look ahead. -/
theorem lookAt_next_overwritten (hl : a.Lists (pre ++ b :: post))
    (ho : a.Overwritten lost guard a') (hrow : Listed lost (pre ++ b :: post)) :
    (Machine.lookAt a' a'.successor (firstLink (span pre + b.extent) post none) = .ok () ∧
        ClearAhead lost (span pre + b.extent) post) ∨
      ∃ t ∈ a.walk.segments, a.Involved ⟨span pre, b.headerIn pre post⟩ t ∧ t.offset ∈ lost ∧
        Machine.lookAt a' a'.successor (firstLink (span pre + b.extent) post none) =
          .error (.detected (a.corruption guard t)) := by
  cases post with
  | nil => exact Or.inl ⟨rfl, fun _ _ h => (nomatch h), fun _ _ _ h => (nomatch h)⟩
  | cons n rest =>
    have hn := concat_iff.mpr hl
    have hrow' : Listed lost (pre ++ [b] ++ n :: rest) := by simpa using hrow
    have hmem := hl.mem_walk_iff.mpr ⟨pre ++ [b], n, rest, by simp, rfl⟩
    obtain ⟨q, hlink, hq⟩ := exists_segment_after (pre ++ [b] ++ [n]) rest
    have hfollow := hn.successor
    rw [← ho.successor_eq, ← span_concat, hlink] at hfollow
    have hbeyond : ∀ t ∈ q, a'.read t.offset = if t.offset ∈ lost then
        .error (.detected (a.corruption guard t)) else .ok t.header := by
      intro t ht
      obtain ⟨y, ys, rfl, rfl⟩ := (hq t).mp ht
      exact (concat_iff.mpr hn).read_overwritten ho (by simpa using hrow')
    rw [firstLink_cons, ← span_concat]
    rcases lookAt_cases ⟨span (pre ++ [b]), n.headerIn (pre ++ [b]) rest⟩
        (hn.read_overwritten ho hrow') hfollow hbeyond with
      ⟨hok, hkept, hafter⟩ | ⟨t, rfl | ⟨hfree, ht⟩, hlost, herror⟩
    · refine Or.inl ⟨hok, fun y ys h => ?_, fun y z ys h hfree => ?_⟩
      · cases h
        exact hrow'.apart hkept
      · cases h
        have hback : Listed lost (pre ++ [b] ++ [n] ++ z :: ys) := by simpa using hrow'
        rw [← span_concat]
        exact hback.apart (hafter hfree _ ((hq _).mpr ⟨z, ys, rfl, rfl⟩))
    · exact Or.inr ⟨_, hmem, .next (stop_segment _ _ _).symm, hlost, herror⟩
    · obtain ⟨y, ys, rfl, rfl⟩ := (hq t).mp ht
      exact Or.inr ⟨_, hl.mem_walk_iff.mpr ⟨pre ++ [b] ++ [n], y, ys, by simp, rfl⟩,
        .after hmem hfree (stop_segment _ _ _).symm (stop_segment _ _ _).symm, hlost, herror⟩

end Arena.Lists

namespace Machine

variable {lost : List Nat} {guard : Nat → Nat} {m n : Machine} {pre post : List Block} {b : Block}

/-- A release reads all it depends on before it changes anything. -/
theorem release_overwritten {a' : Arena} (hl : m.arena.Lists (pre ++ b :: post))
    (hu : b.used = true) (ho : m.arena.Overwritten lost guard a')
    (hrow : Listed lost (pre ++ b :: post)) :
    Clearance lost pre b post ∧ inspectNeighbors a' (lastLink none 0 pre)
        (firstLink (span pre + b.extent) post none) = .ok () ∨
      ∃ t ∈ m.arena.walk.segments, m.arena.Involved ⟨span pre, b.headerIn pre post⟩ t ∧
        t.offset ∈ lost ∧ ∀ n : Machine, n.arena = a' → ∀ callback site,
          releaseSegment callback (span pre) site n =
            .error (.detected (m.arena.corruption guard t)) n := by
  have hread := hl.read_overwritten ho hrow
  by_cases hlost : span pre ∈ lost
  · rw [if_pos hlost] at hread
    refine Or.inr ⟨_, hl.mem_walk_iff.mpr ⟨pre, b, post, rfl, rfl⟩, .itself, hlost, ?_⟩
    rintro n rfl callback site
    unfold releaseSegment
    rw [run_bind_ok (run_get n)]
    dsimp only
    rw [hread, run_bind_error (run_lift_error _ _)]
  · rw [if_neg hlost] at hread
    have hlook : ∀ e, inspectNeighbors a' (lastLink none 0 pre)
        (firstLink (span pre + b.extent) post none) = .error e → ∀ n : Machine, n.arena = a' →
          ∀ callback site, releaseSegment callback (span pre) site n = .error e n := by
      rintro e he n rfl callback site
      have hused : ¬ (!(b.headerIn pre post).used) = true := by simp [hu]
      unfold releaseSegment
      rw [run_bind_ok (run_get n)]
      dsimp only
      rw [hread, run_bind_ok (run_lift_ok _ _), if_neg hused, ho.predecessor_eq, hl.predecessor,
        run_bind_ok (run_lift_ok _ _), ho.successor_eq, hl.successor,
        run_bind_ok (run_lift_ok _ _), he, run_bind_error (run_lift_error _ _)]
    rw [inspectNeighbors_eq] at hlook ⊢
    rcases hl.lookAt_prev_overwritten ho hrow with ⟨hprev, hback⟩ | ⟨t, ht, hi, htl, herror⟩
    · rcases hl.lookAt_next_overwritten ho hrow with ⟨hnext, hahead⟩ | ⟨t, ht, hi, htl, herror⟩
      · refine Or.inl ⟨⟨hrow.apart hlost, hback, hahead⟩, ?_⟩
        rw [hprev]
        exact hnext
      · exact Or.inr ⟨t, ht, hi, htl, hlook _ (by rw [hprev]; exact herror)⟩
    · exact Or.inr ⟨t, ht, hi, htl, hlook _ (by rw [herror]; rfl)⟩

/-- Where nothing a release depends on was hit, it does its work, and then its audit
names the lowest segment that was. -/
theorem run_releaseSegment_marred {xs ys : List Segment} {t : Segment} (site : CallSite)
    (hm : m.Marred lost guard n) (hs : m.arena.Sound m.platform (pre ++ b :: post))
    (hu : b.used = true) (hrow : Listed lost (pre ++ b :: post)) (hc : Clearance lost pre b post)
    (hlook : inspectNeighbors n.arena (lastLink none 0 pre)
      (firstLink (span pre + b.extent) post none) = .ok ())
    (hsegs : m.arena.walk.segments = xs ++ t :: ys) (ht : t.offset ∈ lost)
    (hxs : ∀ s ∈ xs, s.offset ∉ lost) :
    ∃ m' n', releaseSegment .none (span pre) site m = .ok () m' ∧
      releaseSegment .none (span pre) site n =
        .error (.detected (m.arena.corruption guard t)) n' ∧
      m'.Marred lost guard n' ∧ m.Around m' := by
  have hl := hs.lists
  have htidy := hs.orderly.toTidy
  obtain ⟨front, c, back, a, hmerge, hlists, hin, ⟨hfree, -⟩, hmerged, ⟨hback, hahead⟩, -⟩ :=
    exists_merged site hl htidy hu
  obtain ⟨m', htrim, hsound, haround, -⟩ :=
    run_trim_inside hs hin hlists hfree hmerged hahead.suffix
  have hspan : span (front ++ c :: back) = span (pre ++ b :: post) := by
    rw [← hlists.top_eq, ← hl.top_eq, hin.top_eq]
  obtain ⟨hown, hprev⟩ := hc.merged hback hahead hspan
  -- the damaged heap follows step by step
  obtain ⟨n₁, hmerge', hm₁⟩ :=
    alike_onArena hm (hl.alike_merge htidy hu hm.arena hc site) _ _ hmerge
  obtain ⟨n', htrim', hm'⟩ :=
    alike_trim (m := { m with arena := a }) hlists hm₁ hown hprev _ _ htrim
  have hkept := fun x (hx : x ∈ places 0 (pre ++ b :: post)) =>
    hc.kept (c := c) hback hahead hspan m.arena.window.floor hx
  have hrow' : Listed lost (trimmed m.arena.window.floor front c back) := fun l hlost =>
    let ⟨d, hd⟩ := hrow l hlost
    ⟨d, hkept _ hd hlost⟩
  obtain ⟨xs', t', ys', hsegs', ht', hxs'⟩ :=
    hsound.lists.exists_lowest hrow' (List.ne_nil_of_mem ht)
  have haudit := hsound.lists.totals_overwritten hsound.orderly.separated hm'.arena hrow' hsegs' ht'
    hxs'
  rw [hl.corruption_eq hsound.lists hrow haround.window_eq hkept hsegs ht hxs hsegs' ht' hxs']
    at haudit
  have hused : ¬ (!(b.headerIn pre post).used) = true := by simp [hu]
  refine ⟨m', n', ?_, ?_, hm', haround⟩
  · unfold releaseSegment
    rw [run_bind_ok (run_get m)]
    dsimp only
    rw [hl.read, run_bind_ok (run_lift_ok _ _), if_neg hused, hl.predecessor,
      run_bind_ok (run_lift_ok _ _), hl.successor, run_bind_ok (run_lift_ok _ _),
      hl.inspectNeighbors, run_bind_ok (run_lift_ok _ _), run_bind_ok hmerge, run_bind_ok htrim,
      run_bind_ok (run_get m'), hsound.lists.totals hsound.orderly.separated]
    rfl
  · have hread := hm.arena.read_eq hc.own.header
    unfold releaseSegment
    rw [run_bind_ok (run_get n)]
    dsimp only
    rw [hread, hl.read, run_bind_ok (run_lift_ok _ _), if_neg hused, hm.arena.predecessor_eq,
      hl.predecessor, run_bind_ok (run_lift_ok _ _), hm.arena.successor_eq, hl.successor,
      run_bind_ok (run_lift_ok _ _), hlook, run_bind_ok (run_lift_ok _ _), run_bind_ok hmerge',
      run_bind_ok htrim', run_bind_ok (run_get n'), haudit, run_bind_error (run_lift_error _ _)]

/-! ## Giving a block back -/

theorem Marred.context_eq (h : m.Marred lost guard n) : n.context = m.context := by
  rw [h.rest]

theorem Marred.isOpen (h : m.Marred lost guard n) (ho : m.Open) : n.Open := by
  unfold Open
  rw [h.context_eq]
  exact ho

theorem Marred.lock_eq (h : m.Marred lost guard n) : n.lock = m.lock := by
  rw [h.rest]

theorem Marred.entered (h : m.Marred lost guard n) (site : CallSite) (j j' : Array LogLine) :
    Marred lost guard (m.entered site j) (n.entered site j') :=
  ⟨h.arena, congrArg
    (fun k => { k with lock := ⟨true, k.context.id.value, some site⟩, journal := j' }) h.rest⟩

theorem Marred.left (h : m.Marred lost guard n) (j j' : Array LogLine) :
    Marred lost guard (m.left j) (n.left j') :=
  ⟨h.arena, congrArg (fun k => { k with lock := .unlocked, journal := j' }) h.rest⟩

theorem Marred.locate_eq (h : m.Marred lost guard n) (address : Nat) :
    n.arena.locate address = m.arena.locate address := by
  unfold Arena.locate
  rw [h.arena.top_eq]
  simp only [h.arena.addr_eq]

/-- Giving a block back releases its segment under the lock, and reports what was
detected. -/
theorem exists_freed {address off : Nat} (hl : m.lock = .unlocked) (ho : m.Open)
    (haddress : address ≠ 0) (hlocate : m.arena.locate address = .ok off) (site : CallSite) :
    ∃ j, Ends
      (fun _ k => k.lock.locked = true → ∃ j', free .none address site m = .ok true (k.left j'))
      (fun e k => k.lock.locked = true → ∀ error, e = .detected error → ∃ j',
        free .none address site m =
          .error (.fatal ⟨error, ⟨site, k.context.id, k.context.cpu⟩⟩) (k.left j'))
      (releaseSegment .none off site (m.entered site j)) := by
  let body : HeapM Unit := do
    let off ← (← get).arena.locate address
    releaseSegment .none off site
  let logged : Machine := { m with journal := m.journal.push (.freeing address site) }
  obtain ⟨j, hlocked⟩ := exists_locked (m := logged) body hl ho site
  have hbody : body (logged.entered site j) = releaseSegment .none off site (m.entered site j) := by
    refine (run_bind_ok (run_get _)).trans ?_
    show (liftM (m.arena.locate address) >>= fun off => releaseSegment .none off site) _ = _
    rw [hlocate, run_bind_ok (run_lift_ok _ _)]
    rfl
  have htry : tryFree .none address site m = locked site body logged :=
    run_bind_ok (run_log _ m)
  rw [hbody] at hlocked
  refine ⟨j, ?_⟩
  unfold free
  rw [if_neg haddress]
  cases hrun : releaseSegment .none off site (m.entered site j) with
  | ok r k =>
    rw [hrun] at hlocked
    intro hk
    obtain ⟨j', hok⟩ := hlocked hk
    exact ⟨j', run_bind_ok (run_tryCatch_ok (htry.trans hok))⟩
  | error e k =>
    rw [hrun] at hlocked
    rintro hk error rfl
    exact ⟨_, run_bind_error (run_tryCatch_error (htry.trans (hlocked hk)))⟩

end Machine

end GuardedHeap
