/-
  Proofs/Damage/Placement.lean --- giving a block out in a damaged heap.

  WHAT THIS FILE IS FOR.  Giving a block out walks up to the first segment that fits and
  reads the one behind it.  `Searched` are the segments this depends on.

  WHAT IS PROVED.  Where one of them lost its guard, giving a block out names it and
  changes nothing.  Where none of them did, it returns, whatever else was hit, unless the
  segment it came to is longer than an object may be.
-/
import GuardedHeap.Proofs.Damage.Release

set_option autoImplicit false

namespace GuardedHeap

/-! ## Giving a block out -/

/-- The segments that giving out `size` bytes depends on: those up to the first one that
fits and, if that is taken, the one behind it, or all of them where none fits.  One that is
longer than an object may be is not taken. -/
def Arena.Searched (a : Arena) (size : Nat) (t : Segment) : Prop :=
  ∀ c, a.walk.segments.find? (fun s => Arena.Fits size s) = some c →
    t.offset ≤ c.offset ∨ (t.offset = c.stop ∧ c.header.size ≤ Word.maxRequest)

namespace Arena

variable {lost : List Nat} {guard : Nat → Nat} {a a' : Arena} {bs : List Block} {size : Nat}

/-- The search fails at a segment it depends on, or finds what it would have found without
the damage, below all that was hit. -/
theorem Lists.firstFit_overwritten (hl : a.Lists bs) (ho : a.Overwritten lost guard a')
    (hrow : Listed lost bs) (hne : lost ≠ []) (size : Nat) :
    (∃ t ∈ a.walk.segments, t.offset ∈ lost ∧ a.Searched size t ∧
        a'.firstFit size = .error (.detected (a.corruption guard t))) ∨
      ∃ c, a.walk.segments.find? (fun s => Fits size s) = some c ∧
        a'.firstFit size = .ok (some c.offset) ∧ ∀ l ∈ lost, c.offset < l := by
  obtain ⟨xs, t, ys, hsegs, ht, hxs⟩ := hl.exists_lowest hrow hne
  have hwalk := hl.walk_overwritten ho hrow hsegs ht hxs
  have hpair := pairwise_walk a
  rw [hsegs, List.pairwise_append, List.pairwise_cons] at hpair
  obtain ⟨-, ⟨hys, -⟩, hbetween⟩ := hpair
  cases hfind : xs.find? (fun s => Fits size s) with
  | none =>
    refine Or.inl ⟨t, by simp [hsegs], ht, fun c hc => Or.inl ?_, ?_⟩
    · rw [hsegs, List.find?_append, hfind, Option.none_or] at hc
      rcases List.mem_cons.mp (List.mem_of_find?_eq_some hc) with rfl | hmem
      · exact Nat.le_refl _
      · exact Nat.le_of_lt (hys c hmem)
    · unfold Arena.firstFit
      rw [hwalk]
      simp only [hfind]
  | some c =>
    have hc := List.mem_of_find?_eq_some hfind
    refine Or.inr ⟨c, ?_, ?_, fun l hlost => ?_⟩
    · rw [hsegs, List.find?_append, hfind, Option.some_or]
    · unfold Arena.firstFit
      rw [hwalk]
      simp only [hfind]
    · exact Nat.lt_of_lt_of_le (hbetween c hc t List.mem_cons_self)
        (hl.lowest_le hrow hsegs hxs hlost)

variable {pre post : List Block} {c : Block}

/-- Taking a free block into use reads the header behind it before it writes. -/
theorem Lists.occupy_overwritten (hl : a.Lists (pre ++ c :: post))
    (ho : a.Overwritten lost guard a') (hrow : Listed lost (pre ++ c :: post))
    (hown : span pre ∉ lost) (hg : size % granule = 0) (hle : size ≤ c.size) :
    (∃ t ∈ a.walk.segments, t.offset ∈ lost ∧ t.offset = span pre + c.extent ∧
        Arena.occupy (span pre) size a' = .error (.detected (a.corruption guard t)) a') ∨
      (span pre + c.extent ∉ lost ∧
        Alike (Overwritten lost guard) (Arena.occupy (span pre) size)
          (Arena.occupy (span pre) size) a a') := by
  by_cases hlost : span pre + c.extent ∈ lost
  · obtain ⟨y, rest, rfl⟩ := hrow.exists_next hlost
    have hy := concat_iff.mpr hl
    have hread := hy.read_overwritten ho (by simpa using hrow)
    rw [span_concat, if_pos hlost] at hread
    refine Or.inl ⟨_, hl.mem_walk_iff.mpr ⟨pre ++ [c], y, rest, by simp, rfl⟩, ?_, ?_, ?_⟩
    · rwa [span_concat]
    · exact span_concat pre c
    · have hown' := hl.read_overwritten ho hrow
      rw [if_neg hown] at hown'
      have hsucc : a'.successorSegment (span pre) (c.headerIn pre (y :: rest)) =
          .error (.detected (a.corruption guard
            ⟨span (pre ++ [c]), y.headerIn (pre ++ [c]) rest⟩)) := by
        unfold Arena.successorSegment
        rw [ho.successor_eq, hl.successor, firstLink_cons]
        simp only [bind, Except.bind, hread, span_concat]
      have hlarge : ¬ (c.headerIn pre (y :: rest)).size < size := Nat.not_lt.mpr hle
      unfold Arena.occupy
      rw [run_bind_ok (run_get a'), hown', run_bind_ok (run_lift_ok _ _)]
      dsimp only
      rw [if_neg (fun hne => hne hg), if_neg hlarge, hsucc, run_bind_error (run_lift_error _ _)]
  · refine Or.inr ⟨hlost, alike_occupy ho size hl.read (hrow.apart hown) ?_⟩
    intro q hq
    cases post with
    | nil => cases hq
    | cons y rest =>
      cases hq
      have hrow' : Listed lost (pre ++ [c] ++ y :: rest) := by simpa using hrow
      rw [← span_concat] at hlost ⊢
      exact (hrow'.apart hlost).header

end Arena

namespace Machine

variable {lost : List Nat} {guard : Nat → Nat} {m n : Machine} {bs : List Block} {size : Nat}

/-- The payload of a free block that was not hit is still clear. -/
theorem checkClear_overwritten {pre post : List Block} {c : Block}
    (hl : m.arena.Lists (pre ++ c :: post)) (hclear : c.Clear) (hfree : c.used = false)
    (hmax : c.size ≤ Word.maxRequest) (ho : m.arena.Overwritten lost guard n.arena)
    (hap : Apart lost (span pre) c.extent) :
    checkClear (span pre) n = .ok () n := by
  have hread : n.arena.read (span pre) = .ok (c.headerIn pre post) :=
    (ho.read_eq hap.header).trans hl.read
  have hcheck : Arena.checkClear (span pre) n.arena = .ok none n.arena := by
    refine Arena.checkClear_of_read hread hfree hmax fun i hi hj => ?_
    have he : c.extent = headerSize + c.size := rfl
    have hstop : i < span pre + headerSize + c.size := hj
    rw [ho.agree hap i (by omega) (by omega)]
    exact hl.get_eq_zero hfree hclear hi hj
  unfold checkClear
  rw [run_bind_ok (run_onArena_ok hcheck)]
  rfl

theorem checkClear_overwritten_tooLong {pre post : List Block} {c : Block}
    (hl : m.arena.Lists (pre ++ c :: post)) (hfree : c.used = false)
    (hlong : Word.maxRequest < c.size) (ho : m.arena.Overwritten lost guard n.arena)
    (hap : Apart lost (span pre) c.extent) :
    checkClear (span pre) n = .error (.panic .payloadTooLong) n :=
  run_checkClear_tooLong ((ho.read_eq hap.header).trans hl.read) hfree hlong

/-- Where the first block that fits was not hit, nor the one behind it, it is taken as it is
without the damage. -/
theorem run_takeSegment_marred {pre post : List Block} {c : Block}
    (hl : m.arena.Lists (pre ++ c :: post)) (hm : m.Marred lost guard n) (hc : c.Fits size)
    (hclear : c.Clear) (hmax : c.size ≤ Word.maxRequest)
    (hfit : m.arena.firstFit size = .ok (some (span pre)))
    (hfit' : n.arena.firstFit size = .ok (some (span pre)))
    (hown : Apart lost (span pre) c.extent)
    (halike : Alike (Arena.Overwritten lost guard) (Arena.occupy (span pre) size)
      (Arena.occupy (span pre) size) m.arena n.arena) (hg : size % granule = 0)
    (callback : Callback) (site : CallSite) :
    ∃ m' n', takeSegment callback size site m = .ok (span pre) m' ∧
      takeSegment callback size site n = .ok (span pre) n' ∧ m'.Marred lost guard n' ∧
      m.Around m' := by
  obtain ⟨j, hsearch⟩ := run_search hfit
  obtain ⟨j', hsearch'⟩ := run_search hfit'
  have hm' : Marred lost guard { m with journal := j } { n with journal := j' } :=
    ⟨hm.arena, congrArg (fun k => { k with journal := j' }) hm.rest⟩
  obtain ⟨a, hrun, -, hin⟩ := run_occupyRoom (n := { m with journal := j }) site hl hg hc.2
  have hoccupy : Alike (Marred lost guard) (occupyRoom (span pre) size site)
      (occupyRoom (span pre) size site) { m with journal := j } { n with journal := j' } := by
    unfold occupyRoom
    refine .bind (alike_onArena hm' halike) fun _ m₁ n₁ _ h₁ => .bind_get ?_
    have htracing : n₁.tracing = m₁.tracing := by rw [h₁.rest]
    have hcontext : n₁.context = m₁.context := by rw [h₁.rest]
    rw [htracing, hcontext]
    refine .bind (alike_onArena h₁ (Arena.alike_amend h₁.arena hown.header _)) ?_
    intro _ _ _ _ h₂
    exact .pure h₂ (span pre)
  obtain ⟨n', hrun', hmarred⟩ := hoccupy _ _ hrun
  refine ⟨_, n', ?_, ?_, hmarred, hin.window_eq, rfl, rfl, rfl, rfl, rfl⟩
  · rw [takeSegment_eq, findRoom, bind_assoc, run_bind_ok hsearch]
    exact (run_bind_ok (run_checkClear (m := { m with journal := j }) hl hc.1 hmax hclear)).trans
      hrun
  · rw [takeSegment_eq, findRoom, bind_assoc, run_bind_ok hsearch']
    exact (run_bind_ok (checkClear_overwritten (n := { n with journal := j' }) hl hclear hc.1
      hmax hm.arena hown)).trans hrun'

/-- Placing a block fails at a segment it depends on before anything is changed, or finds
none of those hit and takes what it would take without the damage, if that is an object. -/
theorem takeSegment_overwritten {a' : Arena} (hs : m.arena.Sound m.platform bs)
    (ho : m.arena.Overwritten lost guard a') (hrow : Listed lost bs) (hne : lost ≠ [])
    (hg : size % granule = 0) (callback : Callback) (site : CallSite) :
    (∃ t ∈ m.arena.walk.segments, t.offset ∈ lost ∧ m.arena.Searched size t ∧
        ∀ n, n.arena = a' → ∃ j, takeSegment callback size site n =
          .error (.detected (m.arena.corruption guard t)) { n with journal := j }) ∨
      (∀ t ∈ m.arena.walk.segments, t.offset ∈ lost → ¬ m.arena.Searched size t) ∧
        ∃ pre c post, bs = pre ++ c :: post ∧
          m.arena.walk.segments.find? (fun s => Arena.Fits size s) =
            some ⟨span pre, c.headerIn pre post⟩ ∧ c.Fits size ∧ span pre ∉ lost ∧
          (c.size ≤ Word.maxRequest →
            ∀ k n, k.arena = m.arena → n.arena = a' → k.Marred lost guard n →
              ∃ k' n', takeSegment callback size site k = .ok (span pre) k' ∧
                takeSegment callback size site n = .ok (span pre) n' ∧
                k'.Marred lost guard n' ∧ k.Around k') ∧
          (Word.maxRequest < c.size → ∀ n, n.arena = a' →
            ∃ j, takeSegment callback size site n =
              .error (.panic .payloadTooLong) { n with journal := j }) := by
  have hl := hs.lists
  rcases hl.firstFit_overwritten ho hrow hne size with
    ⟨t, ht, hlost, hsearched, hfit⟩ | ⟨s, hfind, hfit, hbelow⟩
  · refine Or.inl ⟨t, ht, hlost, hsearched, ?_⟩
    rintro n rfl
    obtain ⟨j, hsearch⟩ := run_search_error hfit
    exact ⟨j, run_bind_error hsearch⟩
  · have hmem := List.mem_of_find?_eq_some hfind
    have hfits : Arena.Fits size s := by
      have hfound := List.find?_some hfind
      exact of_decide_eq_true hfound
    have hfit' : m.arena.firstFit size = .ok (some s.offset) := by
      unfold Arena.firstFit
      simp only [hfind]
    obtain ⟨pre, c, post, rfl, rfl⟩ := hl.mem_walk_iff.mp hmem
    have hown : span pre ∉ lost := fun hlost => Nat.lt_irrefl _ (hbelow _ hlost)
    have hclear : c.Clear := hs.orderly.clear c (by simp)
    have hap := hrow.apart hown
    by_cases hlong : Word.maxRequest < c.size
    · refine Or.inr ⟨fun t _ hlost hsearched => ?_, pre, c, post, rfl, hfind, hfits, hown,
        fun hmax => absurd hmax (Nat.not_le.mpr hlong), ?_⟩
      · rcases hsearched _ hfind with hle | ⟨-, hmax⟩
        · exact Nat.not_lt.mpr hle (hbelow _ hlost)
        · rw [Block.headerIn_size] at hmax
          exact Nat.not_lt.mpr hmax hlong
      · rintro - n rfl
        obtain ⟨j, hsearch⟩ := run_search hfit
        have hcheck := checkClear_overwritten_tooLong (n := { n with journal := j }) hl hfits.1
          hlong ho hap
        refine ⟨j, ?_⟩
        unfold takeSegment
        rw [run_bind_ok hsearch]
        dsimp only
        rw [run_bind_ok (run_pure _ _), run_bind_error hcheck]
    have hmax := Nat.le_of_not_lt hlong
    rcases hl.occupy_overwritten ho hrow hown hg hfits.2 with
      ⟨t, ht, hlost, hstop, hrun⟩ | ⟨hkept, halike⟩
    · refine Or.inl ⟨t, ht, hlost, fun c' hc' => Or.inr ?_, ?_⟩
      · rw [hfind] at hc'
        cases hc'
        refine ⟨?_, hmax⟩
        rw [hstop, ← span_concat, stop_segment]
      · rintro n rfl
        obtain ⟨j, hsearch⟩ := run_search hfit
        have hcheck := checkClear_overwritten (n := { n with journal := j }) hl hclear hfits.1 hmax
          ho hap
        unfold takeSegment
        rw [run_bind_ok hsearch]
        dsimp only
        rw [run_bind_ok (run_pure _ _), run_bind_ok hcheck]
        refine ⟨j, run_bind_error ?_⟩
        unfold onArena
        rw [show Arena.occupy (span pre) size (arena { n with journal := j }) = _ from hrun]
    · refine Or.inr ⟨fun t _ hlost hsearched => ?_, pre, c, post, rfl, hfind, hfits, hown,
        fun _ => ?_, fun hlong' => absurd hlong' hlong⟩
      · rcases hsearched _ hfind with hle | ⟨hstop, -⟩
        · exact Nat.not_lt.mpr hle (hbelow _ hlost)
        · rw [stop_segment, span_concat] at hstop
          exact hkept (hstop ▸ hlost)
      · rintro k n hk rfl hm
        rw [← hk] at hl hfit' halike
        exact run_takeSegment_marred hl hm hfits hclear hmax hfit' hfit hap halike hg callback site

end Machine

end GuardedHeap
