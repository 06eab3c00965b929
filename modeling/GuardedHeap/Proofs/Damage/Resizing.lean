/-
  Proofs/Damage/Resizing.lean --- resizing a block in a damaged heap.

  WHAT THIS FILE IS FOR.  Resizing a block splits, merges, places, copies and gives back,
  and each of these reads headers.  Damage that is met in the first of them is met in time.
  `Overlooked` is the damage that is met in a later one.

  WHAT IS PROVED.  Resizing a live block reports damage it overlooked when memory has
  changed already.  Where it overlooks none it changes nothing if it reports any, and
  otherwise it returns, unless it comes to a payload that is longer than an object may be.
-/
import GuardedHeap.Proofs.Damage.Placement
import GuardedHeap.Proofs.Reallocation

set_option autoImplicit false

namespace GuardedHeap

/-! ## Damage that is met too late -/

/-- Guards at offsets in `lost` were overwritten, and resizing the segment `s` to `size` bytes
comes upon that only after it has changed something. -/
inductive Arena.Overlooked (a : Arena) (lost : List Nat) (s : Segment) (size : Nat) : Prop
  /-- what is cut off merges with the free segment behind, which the one behind that has to
  be linked to -/
  | cut {t : Segment} (hsplit : headerSize < s.header.size - size) (own : s.offset ∉ lost)
      (ht : t ∈ a.walk.segments) (hoff : t.offset = s.stop) (hfree : t.header.used = false)
      (next : t.offset ∉ lost) (hlost : t.stop ∈ lost)
  /-- the block moves to a place that can be given out, before it is given back -/
  | moved (hlt : s.header.size < size) (hnone : ∀ t, ¬ a.Behind s size t) (own : s.offset ∉ lost)
      (next : s.stop ∉ lost) (hne : lost ≠ [])
      (hplace : ∀ t ∈ a.walk.segments, t.offset ∈ lost → ¬ a.Searched size t)
      (hobject : ∀ c, a.walk.segments.find? (fun s => Arena.Fits size s) = some c →
        c.header.size ≤ Word.maxRequest)

section Rows

variable {lost : List Nat} {guard : Nat → Nat} {a a' : Arena} {pre post : List Block} {b : Block}

/-- A row that lost guards may have lost the one behind a block, or that behind the free
block there, or neither. -/
theorem Listed.ahead_cases (h : Listed lost (pre ++ b :: post)) :
    span pre + b.extent ∈ lost ∨
      (span pre + b.extent ∉ lost ∧ ∃ y z rest, post = y :: z :: rest ∧ y.used = false ∧
        span pre + b.extent + y.extent ∈ lost) ∨
      ClearAhead lost (span pre + b.extent) post := by
  by_cases hnext : span pre + b.extent ∈ lost
  · exact Or.inl hnext
  · refine Or.inr ?_
    have hy : ∀ y rest, post = y :: rest → Apart lost (span pre + b.extent) y.extent := by
      rintro y rest rfl
      have hrow : Listed lost (pre ++ [b] ++ y :: rest) := by simpa using h
      rw [← span_concat] at hnext ⊢
      exact hrow.apart hnext
    by_cases hafter : ∃ y z rest, post = y :: z :: rest ∧ y.used = false ∧
        span pre + b.extent + y.extent ∈ lost
    · exact Or.inl ⟨hnext, hafter⟩
    · refine Or.inr ⟨hy, ?_⟩
      rintro y z rest rfl hfree
      have hrow : Listed lost (pre ++ [b] ++ [y] ++ z :: rest) := by simpa using h
      have hkept : span (pre ++ [b] ++ [y]) ∉ lost := by
        rw [span_concat, span_concat]
        exact fun hlost => hafter ⟨y, z, rest, rfl, hfree, hlost⟩
      rw [← span_concat, ← span_concat]
      exact hrow.apart hkept

theorem Apart.carve {size : Nat} (h : Apart lost (span pre) b.extent)
    (hsplit : headerSize < b.size - size) :
    Apart lost (span pre) (b.taken size).extent ∧
      Apart lost (span (pre ++ [b.taken size])) (b.remnant size).extent := by
  have hstop := Block.span_remnant_of_split hsplit pre
  have hplace := span_concat pre (b.taken size)
  exact ⟨h.mono (by omega) (by omega), h.mono (by omega) (by omega)⟩

namespace Arena

/-- A merge with a free block behind reads what lies behind that before it writes. -/
theorem Lists.absorb_lost {rest : List Block} {y z : Block}
    (hl : a.Lists (pre ++ b :: y :: z :: rest)) (ho : a.Overwritten lost guard a')
    (hrow : Listed lost (pre ++ b :: y :: z :: rest)) (hown : span pre ∉ lost)
    (hnext : span pre + b.extent ∉ lost) (hfree : y.used = false)
    (hlost : span pre + b.extent + y.extent ∈ lost) :
    ∃ t ∈ a.walk.segments, t.offset ∈ lost ∧
      absorb (span pre) (some (span pre + b.extent)) a' =
        .error (.detected (a.corruption guard t)) a' := by
  have hy := concat_iff.mpr hl
  have hz := concat_iff.mpr hy
  have hrow' : Listed lost (pre ++ [b] ++ [y] ++ z :: rest) := by simpa using hrow
  have hread := hl.read_overwritten ho hrow
  have hready := hy.read_overwritten ho (by simpa using hrow)
  have hreadz := hz.read_overwritten ho hrow'
  rw [if_neg hown] at hread
  rw [span_concat, if_neg hnext] at hready
  rw [span_concat, span_concat, if_pos hlost] at hreadz
  refine ⟨_, hl.mem_walk_iff.mpr ⟨pre ++ [b] ++ [y], z, rest, by simp, rfl⟩, ?_, ?_⟩
  · rwa [span_concat, span_concat]
  · have horder : ¬ span pre + b.extent < span pre := by omega
    have hused : ¬ (y.headerIn (pre ++ [b]) (z :: rest)).used = true := by simp [hfree]
    have hneighbor : ¬ (b.headerIn pre (y :: z :: rest)).next ≠ some (span pre + b.extent) :=
      not_not.mpr rfl
    have hsucc : a'.successorSegment (span pre + b.extent)
        (y.headerIn (pre ++ [b]) (z :: rest)) =
          .error (.detected (a.corruption guard
            ⟨span (pre ++ [b] ++ [y]), z.headerIn (pre ++ [b] ++ [y]) rest⟩)) := by
      have hlink := hy.successor
      rw [span_concat] at hlink
      unfold Arena.successorSegment
      rw [ho.successor_eq, hlink, firstLink_cons]
      simp only [bind, Except.bind, hreadz, span_concat]
    unfold Arena.absorb
    dsimp only
    rw [run_bind_ok (run_get a'), hread, run_bind_ok (run_lift_ok _ _), hready,
      run_bind_ok (run_lift_ok _ _), if_neg hused, if_neg horder]
    unfold Arena.join
    dsimp only
    rw [run_bind_ok (run_get a'), if_neg hneighbor, hsucc, run_bind_error (run_lift_error _ _)]

end Arena

/-- Cutting a block down overlooks what lies behind the free block behind it. -/
theorem Arena.Lists.overlooked_cut_iff (hl : a.Lists (pre ++ b :: post))
    (hrow : Listed lost (pre ++ b :: post)) (hown : span pre ∉ lost) {size : Nat}
    (hle : size ≤ b.size) :
    a.Overlooked lost ⟨span pre, b.headerIn pre post⟩ size ↔
      headerSize < b.size - size ∧ span pre + b.extent ∉ lost ∧ ∃ y z rest,
        post = y :: z :: rest ∧ y.used = false ∧ span pre + b.extent + y.extent ∈ lost := by
  constructor
  · intro h
    cases h with
    | cut hsplit own ht hoff hfree next hlost =>
      obtain ⟨xs, y, ys, hplace, rfl⟩ := hl.mem_walk_iff.mp ht
      obtain ⟨rfl, rfl⟩ := cut_of_stop hplace hoff.symm
      rw [span_concat] at next
      refine ⟨hsplit, next, ?_⟩
      rw [stop_segment, span_concat] at hlost
      have hrow' : Listed lost (pre ++ [b] ++ y :: ys) := by simpa using hrow
      obtain ⟨z, rest, rfl⟩ := hrow'.exists_next hlost
      rw [span_concat] at hlost
      exact ⟨y, z, rest, rfl, hfree, hlost⟩
    | moved hlt => exact absurd hlt (Nat.not_lt.mpr hle)
  · rintro ⟨hsplit, hnext, y, z, rest, rfl, hfree, hlost⟩
    refine .cut (t := ⟨span (pre ++ [b]), y.headerIn (pre ++ [b]) (z :: rest)⟩) hsplit hown
      (hl.mem_walk_iff.mpr ⟨pre ++ [b], y, z :: rest, by simp, rfl⟩) (stop_segment _ _ _).symm
      hfree ?_ ?_
    · rwa [span_concat]
    · rwa [stop_segment, span_concat, span_concat]

end Rows

/-! ## How the work ends -/

namespace Machine

/-- How work on a machine ends where guards of the segments of an arena were overwritten.
`late` says whether it overlooks that at first. -/
inductive Met {α : Type} (lost : List Nat) (guard : Nat → Nat) (a : Arena) (late : Prop)
    (n : Machine) : EStateM.Result Fault Machine α → Prop
  /-- it returns -/
  | returned {r : α} {n' : Machine} (hlate : ¬ late) (around : n.Around n') :
      Met lost guard a late n (.ok r n')
  /-- it names a segment that was hit before it changes anything -/
  | early {t : Segment} (j : Array LogLine) (hlate : ¬ late) (ht : t ∈ a.walk.segments)
      (hlost : t.offset ∈ lost) :
      Met lost guard a late n (.error (.detected (a.corruption guard t)) { n with journal := j })
  /-- it does so when memory is not what it was -/
  | overdue {t : Segment} {n' : Machine} (hlate : late) (ht : t ∈ a.walk.segments)
      (hlost : t.offset ∈ lost) (around : n.Around n')
      (changed : ∃ i, n'.arena.memory.get i ≠ n.arena.memory.get i) :
      Met lost guard a late n (.error (.detected (a.corruption guard t)) n')
  /-- it comes to a payload that is longer than an object may be -/
  | tooLong (j : Array LogLine) (hlate : ¬ late) :
      Met lost guard a late n (.error (.panic .payloadTooLong) { n with journal := j })

section Cutting

variable {lost : List Nat} {guard : Nat → Nat} {late : Prop} {m n : Machine}
  {pre post : List Block} {b : Block} {size : Nat}

/-- An answer that is known beforehand changes nothing about that. -/
theorem Met.answer {α β : Type} {a : Arena} {x : HeapM α} (h : Met lost guard a late n (x n))
    (r : β) : Met lost guard a late n ((x >>= fun _ => pure r : HeapM β) n) := by
  generalize hx : x n = q at h
  cases h with
  | returned hlate around =>
    rw [run_bind_ok hx]
    exact .returned hlate around
  | early j hlate ht hlost =>
    rw [run_bind_error hx]
    exact .early j hlate ht hlost
  | overdue hlate ht hlost around changed =>
    rw [run_bind_error hx]
    exact .overdue hlate ht hlost around changed
  | tooLong j hlate =>
    rw [run_bind_error hx]
    exact .tooLong j hlate

theorem Marred.around {m' n' : Machine} (h : m.Marred lost guard n) (h' : m'.Marred lost guard n')
    (ha : m.Around m') : n.Around n' where
  window_eq := by rw [h'.arena.window_eq, ha.window_eq, h.arena.window_eq]
  lock_eq := by rw [h'.lock_eq, ha.lock_eq, h.lock_eq]
  tracing_eq := by rw [h'.rest, h.rest]; exact ha.tracing_eq
  installed_eq := by rw [h'.rest, h.rest]; exact ha.installed_eq
  context_eq := by rw [h'.context_eq, ha.context_eq, h.context_eq]
  keepFrames_eq := by rw [h'.rest, h.rest]; exact ha.keepFrames_eq

/-! ### Cutting down -/

/-- Clears a tail that was cut off and merges it with what is free behind it. -/
def mergeTail (off : Nat) : ArenaM Nat := do
  let a ← get
  let h ← a.read off
  Arena.clearPayload off h.size
  let next ← (← get).successor off h
  Arena.absorb off next

theorem shrink_eq (callback : Callback) (off size : Nat) :
    shrink callback off size = (do
      if let some tail ← onArena (Arena.occupy off size) then
        let merged ← onArena (mergeTail tail)
        trim callback merged) := rfl

/-- Clearing and merging a tail looks at what lies behind it. -/
theorem alike_mergeTail {a a' : Arena} (hl : a.Lists (pre ++ b :: post))
    (h : a.Overwritten lost guard a') (hown : Apart lost (span pre) b.extent)
    (hahead : ClearAhead lost (span pre + b.extent) post) :
    Alike (Arena.Overwritten lost guard) (mergeTail (span pre)) (mergeTail (span pre)) a a' := by
  have he : b.extent = headerSize + b.size := rfl
  obtain ⟨a₁, hrun₁, hlists₁, -⟩ := hl.clearPayload
  have hlink : a₁.successor (span pre) (b.headerIn pre post) =
      .ok (firstLink (span pre + b.extent) post none) := hlists₁.successor
  unfold mergeTail
  refine .bind_get ?_
  rw [h.read_eq hown.header, hl.read]
  refine .bind_lift fun k hk => ?_
  cases hk
  rw [Block.headerIn_size]
  refine .bind_run hrun₁ (Arena.alike_clearPayload h (hown.mono (by omega) (by omega))) ?_
  intro a₁' h₁
  refine .bind_get ?_
  rw [h₁.successor_eq, hlink]
  refine .bind_lift fun next hnext => ?_
  cases hnext
  exact hlists₁.alike_absorb_next h₁ hown hahead

/-- Where nothing is split off, or what lies behind was not hit, a block is cut down as it is
without the damage. -/
theorem alike_shrink (hs : m.arena.Sound m.platform (pre ++ b :: post)) (hu : b.used = true)
    (hm : m.Marred lost guard n) (hown : Apart lost (span pre) b.extent)
    (hahead : headerSize < b.size - size → ClearAhead lost (span pre + b.extent) post)
    (hoccupy : Alike (Arena.Overwritten lost guard) (Arena.occupy (span pre) size)
      (Arena.occupy (span pre) size) m.arena n.arena)
    (hg : size % granule = 0) (hle : size ≤ b.size) :
    Alike (Marred lost guard) (shrink .none (span pre) size) (shrink .none (span pre) size)
      m n := by
  obtain ⟨a, hrun, hlists, hin⟩ := hs.lists.occupy hg hle
  rw [shrink_eq]
  refine .bind_run (run_onArena_ok hrun) (alike_onArena hm hoccupy) fun n₁ h₁ => ?_
  by_cases hsplit : headerSize < b.size - size
  · obtain ⟨hpre, hpost⟩ := (tidy_used hu).mp hs.orderly.toTidy
    obtain ⟨hfront, htail⟩ := hown.carve hsplit
    have hused := Block.used_taken b size
    have htidy : Tidy (pre ++ [b.taken size]) := (tidy_used hused).mpr ⟨hpre, tidy_nil⟩
    have hclear : ClearAhead lost
        (span (pre ++ [b.taken size]) + (b.remnant size).extent) post := by
      rw [Block.span_remnant_of_split hsplit]
      exact hahead hsplit
    rw [Block.append_carve_of_split hsplit] at hlists
    obtain ⟨z, back, a', hmerge, hmerged, hin', -, -, hback, -⟩ :=
      exists_tailMerged (m := { m with arena := a }) hlists rfl htidy
        ((endsUsed_concat pre _).mpr hused) hpost
    have hspan : span ((pre ++ [b.taken size]) ++ z :: back) =
        span ((pre ++ [b.taken size]) ++ b.remnant size :: post) := by
      rw [← hmerged.top_eq, ← hlists.top_eq]
      exact hin'.top_eq
    rw [span_append, span_append _ (_ :: post), span_cons, span_cons] at hspan
    rw [if_pos hsplit, ← Block.span_taken_of_split hsplit]
    refine .bind_run hmerge (alike_onArena h₁ ?_) fun n₂ h₂ => ?_
    · exact alike_mergeTail hlists h₁.arena htail hclear
    · refine alike_trim hmerged h₂ (hclear.merged htail hback (by omega)) fun xs o hxs => ?_
      obtain ⟨rfl, ho⟩ := List.append_inj' hxs rfl
      cases ho
      exact hfront
  · rw [if_neg hsplit]
    exact .pure h₁ ()

/-- The merge of the tail comes upon what lies behind when the block was cut down. -/
theorem shrink_overdue {y z : Block} {rest : List Block}
    (hs : m.arena.Sound m.platform (pre ++ b :: y :: z :: rest))
    (hm : m.Marred lost guard n) (hrow : Listed lost (pre ++ b :: y :: z :: rest))
    (hown : span pre ∉ lost) (hnext : span pre + b.extent ∉ lost) (hfree : y.used = false)
    (hlost : span pre + b.extent + y.extent ∈ lost) (hsplit : headerSize < b.size - size)
    (hoccupy : Alike (Arena.Overwritten lost guard) (Arena.occupy (span pre) size)
      (Arena.occupy (span pre) size) m.arena n.arena)
    (hg : size % granule = 0) :
    ∃ t ∈ m.arena.walk.segments, t.offset ∈ lost ∧ ∃ n',
      shrink .none (span pre) size n = .error (.detected (m.arena.corruption guard t)) n' ∧
      n.Around n' ∧ ∃ i, n'.arena.memory.get i ≠ n.arena.memory.get i := by
  have hl := hs.lists
  have hap := hrow.apart hown
  have hstop := Block.span_remnant_of_split hsplit pre
  have hre : (b.remnant size).extent = headerSize + (b.remnant size).size := rfl
  obtain ⟨-, htail⟩ := hap.carve hsplit
  obtain ⟨a₁, hrun₁, hlists₁, hin₁⟩ := hl.occupy hg (by omega)
  obtain ⟨a₁', hrun₁', h₁⟩ := hoccupy _ _ hrun₁
  rw [Block.append_carve_of_split hsplit] at hlists₁
  obtain ⟨a₂, hrun₂, hlists₂, hin₂⟩ := hlists₁.clearPayload
  obtain ⟨a₂', hrun₂', h₂⟩ :=
    Arena.alike_clearPayload h₁ (htail.mono (by omega) (by omega)) _ _ hrun₂
  -- what was hit is where it was
  have hspan : span [b.taken size, { b.remnant size with bytes := fun _ => 0 }] = b.extent := by
    have hsum := b.extent_taken (show size ≤ b.size by omega)
    rw [Block.leftover, if_pos hsplit] at hsum
    exact hsum
  have hassoc : (pre ++ [b.taken size]) ++
      { b.remnant size with bytes := fun _ => 0 } :: y :: z :: rest =
        pre ++ ([b.taken size, { b.remnant size with bytes := fun _ => 0 }] ++ y :: z :: rest) := by
    simp
  have hrow₂ := hrow.splice hown hspan
  rw [← hassoc] at hrow₂
  obtain ⟨t₂, ht₂, hlost₂, hmerge⟩ := hlists₂.absorb_lost h₂ hrow₂ htail.not_mem
    (hstop ▸ hnext) hfree (hstop ▸ hlost)
  obtain ⟨t, ht, hlost, hcorrupt⟩ := hl.exists_corruption_eq hlists₂ hrow
    (hin₂.window_eq.trans hin₁.window_eq)
    (fun x hx hxl => hassoc ▸ mem_places_splice hspan hx fun hoff => hown (hoff ▸ hxl)) ht₂ hlost₂
  rw [hcorrupt] at hmerge
  refine ⟨t, ht, hlost, { n with arena := a₂' }, ?_, ?_, ?_⟩
  · have hlink : a₂.successor (span (pre ++ [b.taken size]))
        ((b.remnant size).headerIn (pre ++ [b.taken size]) (y :: z :: rest)) =
          .ok (some (span (pre ++ [b.taken size]) + (b.remnant size).extent)) := hlists₂.successor
    have htailed : mergeTail (span (pre ++ [b.taken size])) a₁' =
        .error (.detected (m.arena.corruption guard t)) a₂' := by
      unfold mergeTail
      rw [run_bind_ok (run_get _), h₁.read_eq htail.header, hlists₁.read,
        run_bind_ok (run_lift_ok _ _), Block.headerIn_size, run_bind_ok hrun₂',
        run_bind_ok (run_get _), h₂.successor_eq, hlink, run_bind_ok (run_lift_ok _ _)]
      exact hmerge
    rw [shrink_eq, run_bind_ok (run_onArena_ok hrun₁'), if_pos hsplit,
      ← Block.span_taken_of_split hsplit]
    exact run_bind_error (run_onArena_error (m := { n with arena := a₁' }) htailed)
  · have hmarred : Marred lost guard { m with arena := a₂ } { n with arena := a₂' } :=
      ⟨h₂, congrArg (fun k => { k with arena := a₂' }) hm.rest⟩
    exact hm.around hmarred (around_onArena (hin₁.trans hin₂))
  · have hread : n.arena.read (span pre) = .ok (b.headerIn pre (y :: z :: rest)) :=
      (hm.arena.read_eq hap.header).trans hl.read
    have hread₂ : a₂'.read (span pre) = .ok _ :=
      (h₂.read_eq hap.header).trans (Arena.Lists.concat_iff.mp hlists₂).read
    refine Arena.exists_changed hread hread₂ fun heq => ?_
    have hsize := congrArg Header.size heq
    have htaken := Block.extent_taken_of_split hsplit
    have hte : (b.taken size).extent = headerSize + (b.taken size).size := rfl
    rw [Block.headerIn_size, Block.headerIn_size] at hsize
    omega

/-- How cutting a block down ends. -/
theorem shrink_met (hs : m.arena.Sound m.platform (pre ++ b :: post)) (hu : b.used = true)
    (hm : m.Marred lost guard n) (hrow : Listed lost (pre ++ b :: post)) (hown : span pre ∉ lost)
    (hg : size % granule = 0) (hle : size ≤ b.size) :
    Met lost guard m.arena (m.arena.Overlooked lost ⟨span pre, b.headerIn pre post⟩ size) n
      (shrink .none (span pre) size n) := by
  have hiff := hs.lists.overlooked_cut_iff hrow hown hle
  rcases hs.lists.occupy_overwritten hm.arena hrow hown hg hle with
    ⟨t, ht, hlost, hoff, hrun⟩ | ⟨hnext, hoccupy⟩
  · rw [shrink_eq, run_bind_error (run_onArena_error hrun)]
    exact .early n.journal (fun h => (hiff.mp h).2.1 (hoff ▸ hlost)) ht hlost
  · have hreturns : ¬ m.arena.Overlooked lost ⟨span pre, b.headerIn pre post⟩ size →
        (headerSize < b.size - size → ClearAhead lost (span pre + b.extent) post) →
        Met lost guard m.arena (m.arena.Overlooked lost ⟨span pre, b.headerIn pre post⟩ size) n
          (shrink .none (span pre) size n) := by
      intro hlate hahead
      obtain ⟨m', bs', hrun, -, haround, -⟩ := run_shrink hs hu hg hle
      obtain ⟨n', hrun', hm'⟩ :=
        alike_shrink hs hu hm (hrow.apart hown) hahead hoccupy hg hle _ _ hrun
      rw [hrun']
      exact .returned hlate (hm.around hm' haround)
    by_cases hsplit : headerSize < b.size - size
    · rcases hrow.ahead_cases with hlost | ⟨-, y, z, rest, rfl, hfree, hlost⟩ | hahead
      · exact absurd hlost hnext
      · obtain ⟨t, ht, htl, n', hrun, haround, hchanged⟩ :=
          shrink_overdue hs hm hrow hown hnext hfree hlost hsplit hoccupy hg
        rw [hrun]
        exact .overdue (hiff.mpr ⟨hsplit, hnext, y, z, rest, rfl, hfree, hlost⟩) ht htl haround
          hchanged
      · refine hreturns (fun h => ?_) fun _ => hahead
        obtain ⟨-, -, y, z, rest, rfl, hfree, hlost⟩ := hiff.mp h
        exact (hahead.after y z rest rfl hfree).not_mem hlost
    · exact hreturns (fun h => hsplit (hiff.mp h).1) fun h => absurd h hsplit

end Cutting

/-! ### Growing in place -/

section Growing

variable {lost : List Nat} {guard : Nat → Nat} {late : Prop} {m n : Machine}
  {pre rest : List Block} {b y : Block} {size : Nat}

/-- Where nothing that is read was hit, a block grows over an object as it does without the
damage. -/
theorem alike_growInPlace (hs : m.arena.Sound m.platform (pre ++ b :: y :: rest))
    (hm : m.Marred lost guard n) (hown : Apart lost (span pre) b.extent)
    (hahead : ClearAhead lost (span pre + b.extent) (y :: rest)) (hy : y.used = false)
    (hg : size % granule = 0) (hfits : size ≤ b.size + headerSize + y.size)
    (hmax : y.size ≤ Word.maxRequest) :
    Alike (Marred lost guard) (growInPlace .none (span pre) size (span pre + b.extent))
      (growInPlace .none (span pre) size (span pre + b.extent)) m n := by
  have hl := hs.lists
  have hle : size ≤ (b.fuse y).size := by
    simp only [Block.fuse]
    omega
  have hclear : y.Clear := hs.orderly.clear y (by simp)
  have hnext := hahead.next y rest rfl
  have hfused : Apart lost (span pre) (b.fuse y).extent := by
    rw [Block.extent_fuse]
    exact hown.append hnext
  have hcheck := run_checkClear (Arena.Lists.concat_iff.mpr hl) hy hmax hclear
  have hcheck' := checkClear_overwritten (n := n) (Arena.Lists.concat_iff.mpr hl) hclear hy
    hmax hm.arena (span_concat pre b ▸ hnext)
  rw [span_concat] at hcheck hcheck'
  obtain ⟨a₁, hrun₁, hlists₁, -⟩ := hl.absorb_next
  rw [firstLink_cons] at hrun₁
  rw [mergeAhead, if_neg (by simp [hy])] at hlists₁
  obtain ⟨a₂, hrun₂, hlists₂, -⟩ := exists_overgrown hl hy hg hle
  unfold growInPlace
  refine .bind_run hcheck (.of_ok hcheck hcheck' hm) fun k hk => ?_
  refine .bind_run hrun₂ (alike_onArena hk ?_) fun n₂ h₂ => ?_
  · have habsorb := hl.alike_absorb_next hk.arena hown hahead
    rw [firstLink_cons] at habsorb
    refine .bind_run hrun₁ habsorb fun a₁' h₁ => ?_
    refine Arena.alike_occupy h₁ size hlists₁.read hfused fun q hq => ?_
    cases rest with
    | nil => cases hq
    | cons z rest =>
      cases hq
      rw [Block.extent_fuse, ← Nat.add_assoc]
      exact (hahead.after y z rest rfl hy).header
  · by_cases hsplit : headerSize < (b.fuse y).size - size
    · obtain ⟨hfront, htail⟩ := hfused.carve hsplit
      rw [Block.append_carve_of_split hsplit] at hlists₂
      rw [if_pos hsplit, ← Block.span_taken_of_split hsplit]
      refine alike_trim hlists₂ h₂ htail fun xs o hxs => ?_
      obtain ⟨rfl, ho⟩ := List.append_inj' hxs rfl
      cases ho
      exact hfront
    · rw [if_neg hsplit]
      exact .pure h₂ ()

/-- How growing in place ends.  It overlooks nothing. -/
theorem growInPlace_met (hlate : ¬ late) (hs : m.arena.Sound m.platform (pre ++ b :: y :: rest))
    (hu : b.used = true) (hm : m.Marred lost guard n)
    (hrow : Listed lost (pre ++ b :: y :: rest)) (hown : span pre ∉ lost)
    (hnext : span pre + b.extent ∉ lost) (hy : y.used = false) (hg : size % granule = 0)
    (hmore : b.size ≤ size) (hfits : size ≤ b.size + headerSize + y.size) :
    Met lost guard m.arena late n
      (growInPlace .none (span pre) size (span pre + b.extent) n) := by
  have hl := hs.lists
  have hap : Apart lost (span (pre ++ [b])) y.extent := by
    have hrow' : Listed lost (pre ++ [b] ++ y :: rest) := by simpa using hrow
    rw [← span_concat] at hnext
    exact hrow'.apart hnext
  by_cases hlong : Word.maxRequest < y.size
  · have hcheck := checkClear_overwritten_tooLong (n := n) (Arena.Lists.concat_iff.mpr hl) hy hlong
      hm.arena hap
    rw [span_concat] at hcheck
    unfold growInPlace
    rw [run_bind_error hcheck]
    exact .tooLong n.journal hlate
  have hmax := Nat.le_of_not_lt hlong
  rcases hrow.ahead_cases with hlost | ⟨-, _, z, rest, ⟨⟩, -, hlost⟩ | hahead
  · exact absurd hlost hnext
  · have hclear : y.Clear := hs.orderly.clear y (by simp)
    have hcheck := checkClear_overwritten (n := n) (Arena.Lists.concat_iff.mpr hl) hclear hy
      hmax hm.arena hap
    rw [span_concat] at hcheck
    obtain ⟨t, ht, htl, habsorb⟩ := hl.absorb_lost hm.arena hrow hown hnext hy hlost
    have hgrow : growInPlace .none (span pre) size (span pre + b.extent) n =
        .error (.detected (m.arena.corruption guard t)) { n with arena := n.arena } := by
      unfold growInPlace
      rw [run_bind_ok hcheck]
      exact run_bind_error (run_onArena_error (run_bind_error habsorb))
    rw [hgrow]
    exact .early n.journal hlate ht htl
  · obtain ⟨m', bs', hrun, -, haround, -⟩ := run_growInPlace hs hu hy hg hmore hfits hmax
    obtain ⟨n', hrun', hm'⟩ :=
      alike_growInPlace hs hm (hrow.apart hown) hahead hy hg hfits hmax _ _ hrun
    rw [hrun']
    exact .returned hlate (hm.around hm' haround)

end Growing

/-! ### Moving -/

section Moving

variable {lost : List Nat} {guard : Nat → Nat} {m n : Machine} {pre post : List Block} {b : Block}
  {size : Nat}

/-- Moving a block to an object overlooks everything that it does not come upon before. -/
theorem overlooked_moved_iff {a : Arena} (hl : a.Lists (pre ++ b :: post)) (hlt : b.size < size)
    (hnone : ¬ b.HasRoomBehind size post) (hown : span pre ∉ lost)
    (hnext : span pre + b.extent ∉ lost) (hne : lost ≠ []) :
    a.Overlooked lost ⟨span pre, b.headerIn pre post⟩ size ↔
      (∀ t ∈ a.walk.segments, t.offset ∈ lost → ¬ a.Searched size t) ∧
        ∀ c, a.walk.segments.find? (fun s => Arena.Fits size s) = some c →
          c.header.size ≤ Word.maxRequest := by
  constructor
  · intro h
    cases h with
    | cut hsplit =>
      rw [Block.headerIn_size] at hsplit
      omega
    | moved _ _ _ _ _ hplace hobject => exact ⟨hplace, hobject⟩
  · rintro ⟨hplace, hobject⟩
    refine .moved hlt (fun t ht => hnone (hl.hasRoomBehind ht)) hown ?_ hne hplace hobject
    rwa [stop_segment, span_concat]

/-- Where a used block stands now memory has changed, if a free one stood there. -/
theorem changed_of_live {a a' c c' : Arena} {xs ys bs : List Block} {x d : Block}
    (hl : a.Lists (xs ++ x :: ys)) (hfree : x.used = false) (ho : a.Overwritten lost guard a')
    (hap : Apart lost (span xs) headerSize) (hl' : c.Lists bs) (hd : (span xs, d) ∈ live 0 bs)
    (ho' : c.Overwritten lost guard c') : ∃ i, c'.memory.get i ≠ a'.memory.get i := by
  obtain ⟨hu, xs', ys', rfl, hoff⟩ := mem_live_iff.mp hd
  rw [Nat.zero_add] at hoff
  have hread : a'.read (span xs) = .ok (x.headerIn xs ys) := (ho.read_eq hap).trans hl.read
  have hread' : c'.read (span xs) = .ok (d.headerIn xs' ys') := by
    rw [ho'.read_eq hap, hoff]
    exact hl'.read
  refine Arena.exists_changed hread hread' fun heq => ?_
  have hused := congrArg Header.used heq
  rw [Block.headerIn_used, Block.headerIn_used, hfree, hu] at hused
  cases hused

/-- What is known of the place of a new block in the row is known of the new row. -/
theorem sound_of_takeSegment {m' : Machine} {bs xs ys : List Block} {c : Block} (site : CallSite)
    (hs : m.arena.Sound m.platform bs) (hg : size % granule = 0) (hc : bs = xs ++ c :: ys)
    (hfits : c.Fits size) (htake : takeSegment .none size site m = .ok (span xs) m') :
    Found size bs xs c ys ∧ m.Around m' ∧ m'.arena.Sound m'.platform
      (xs ++ m.newBlock size site c :: (c.leftover size ++ ys)) := by
  have hplaced := takeSegment_cases site hs hg
  generalize takeSegment .none size site m = r at hplaced htake
  cases hplaced with
  | refused | tooLong => cases htake
  | done hf _ room sound around =>
    injection htake with hoff hm
    subst hm
    cases hf with
    | made hnone => exact absurd hfits (hnone c (by rw [hc]; simp))
    | fit hbs hfits hfront =>
      obtain ⟨rfl, hrest⟩ := append_inj_of_span (hbs.symm.trans hc) hoff
      cases hrest
      exact ⟨.fit hbs hfits hfront, around, sound⟩

/-- Giving a block back in a damaged heap always ends in a report, and leaves the other live
blocks alone. -/
theorem release_reports (site : CallSite) (hs : m.arena.Sound m.platform (pre ++ b :: post))
    (hu : b.used = true) (hm : m.Marred lost guard n) (hrow : Listed lost (pre ++ b :: post))
    (hne : lost ≠ []) {x : Nat × Block} (hx : x ∈ live 0 (pre ++ b :: post))
    (hother : x ≠ (span pre, b)) :
    ∃ t ∈ m.arena.walk.segments, t.offset ∈ lost ∧ ∃ m' n' bs,
      releaseSegment .none (span pre) site n =
        .error (.detected (m.arena.corruption guard t)) n' ∧
      m'.Marred lost guard n' ∧ m.Around m' ∧ m'.arena.Lists bs ∧ x ∈ live 0 bs := by
  rcases release_overwritten hs.lists hu hm.arena hrow with
    ⟨hclear, hlook⟩ | ⟨t, ht, -, hlost, hrun⟩
  · obtain ⟨xs, t, ys, hsegs, hlost, hxs⟩ := hs.lists.exists_lowest hrow hne
    obtain ⟨m', n', hrun, hrun', hm', haround⟩ :=
      run_releaseSegment_marred site hm hs hu hrow hclear hlook hsegs hlost hxs
    obtain ⟨_, bs, hsame, hsound, -, hperm, -⟩ := run_releaseSegment site hs hu
    rw [hrun] at hsame
    cases hsame
    have hlive := (List.mem_cons.mp (hperm.mem_iff.mpr hx)).resolve_left hother
    exact ⟨t, by simp [hsegs], hlost, m', n', bs, hrun', hm', haround, hsound.lists, hlive⟩
  · exact ⟨t, ht, hlost, m, n, _, hrun n rfl .none site, hm, Around.refl m, hs.lists, hx⟩

/-- How moving a block ends where its new place can be given out: with a report of what giving
the old one back comes upon. -/
theorem relocate_overdue {m₁ n₁ : Machine} {c : Block} {xs ys : List Block}
    (hs : m.arena.Sound m.platform (pre ++ b :: post)) (hu : b.used = true)
    (hm : m.Marred lost guard n) (hrow : Listed lost (pre ++ b :: post)) (hne : lost ≠ [])
    (hown : span pre ∉ lost) (hg : size % granule = 0) (hlt : b.size < size) (site : CallSite)
    (hc : pre ++ b :: post = xs ++ c :: ys) (hfits : c.Fits size) (hplace : span xs ∉ lost)
    (htake : takeSegment .none size site m = .ok (span xs) m₁)
    (htake' : takeSegment .none size site n = .ok (span xs) n₁) (hm₁ : m₁.Marred lost guard n₁) :
    ∃ t ∈ m.arena.walk.segments, t.offset ∈ lost ∧ ∃ n',
      relocate .none (span pre) b.size size site n =
        .error (.detected (m.arena.corruption guard t)) n' ∧
      n.Around n' ∧ ∃ i, n'.arena.memory.get i ≠ n.arena.memory.get i := by
  have hl := hs.lists
  have hb : (span pre, b) ∈ live 0 (pre ++ b :: post) :=
    mem_live_iff.mpr ⟨hu, pre, post, rfl, (Nat.zero_add _).symm⟩
  obtain ⟨hf, haround₁, hsound₁⟩ := sound_of_takeSegment site hs hg hc hfits htake
  obtain ⟨a, hcopy, hsound, hin, hmem, hperm⟩ :=
    exists_copied hf hs.orderly hsound₁ haround₁ hb (Nat.le_of_lt hlt)
  -- the damaged heap follows up to there
  have hcrow : Listed lost (xs ++ c :: ys) := hc ▸ hrow
  have hcap := hcrow.apart hplace
  have hbe : b.extent = headerSize + b.size := rfl
  have hce : c.extent = headerSize + c.size := rfl
  have hroom := hf.le_size
  obtain ⟨a', hcopy', ho⟩ := Arena.alike_copyBytes hm₁.arena
    ((hrow.apart hown).mono (by omega) (by omega)) (hcap.mono (by omega) (by omega)) _ _ hcopy
  have hm₂ : Marred lost guard { m₁ with arena := a } { n₁ with arena := a' } :=
    ⟨ho, congrArg (fun k => { k with arena := a' }) hm₁.rest⟩
  have haround₂ : m.Around { m₁ with arena := a } := haround₁.trans (around_onArena hin)
  -- what was hit is where it was
  have hspan : span (m.movedBlock size site c b :: c.leftover size) = c.extent :=
    c.extent_taken hf.le_size
  have hrow₂ := hcrow.splice hplace hspan
  have hkept : ∀ x ∈ places 0 (pre ++ b :: post), x.1 ∈ lost →
      x ∈ places 0 (xs ++ (m.movedBlock size site c b :: c.leftover size ++ ys)) := by
    rw [hc]
    exact fun x hx hxl => mem_places_splice hspan hx fun hxo => hplace (hxo ▸ hxl)
  have hmoved := hperm.mem_iff.mpr List.mem_cons_self
  obtain ⟨-, preb, postb, hrowb, hoffb⟩ := mem_live_iff.mp hmem
  rw [Nat.zero_add] at hoffb
  rw [List.cons_append, hrowb] at hrow₂ hkept
  rw [hrowb] at hsound hmoved
  have hother : (span xs, m.movedBlock size site c b) ≠ (span preb, b) := fun heq =>
    hf.ne_of_mem_live hs.orderly hb (hoffb.trans (congrArg Prod.fst heq).symm)
  obtain ⟨t₂, ht₂, hlost₂, m₃, n₃, bs₃, hrun, hm₃, haround₃, hlists₃, hlive⟩ := release_reports
    (m := { m₁ with arena := a }) site hsound hu hm₂ hrow₂ hne hmoved hother
  obtain ⟨t, ht, hlost, hcorrupt⟩ := hl.exists_corruption_eq hsound.lists hrow
    haround₂.window_eq hkept ht₂ hlost₂
  refine ⟨t, ht, hlost, n₃, ?_, hm.around hm₃ (haround₂.trans haround₃), ?_⟩
  · rw [← hcorrupt]
    unfold relocate
    rw [run_bind_ok htake', run_bind_ok (run_get _), run_bind_ok (run_onArena_ok hcopy'), hoffb,
      run_bind_error hrun]
  · exact changed_of_live (hc ▸ hl) hfits.1 hm.arena hcap.header hlists₃ hlive hm₃.arena

/-- How moving a block ends. -/
theorem relocate_met (hs : m.arena.Sound m.platform (pre ++ b :: post)) (hu : b.used = true)
    (hm : m.Marred lost guard n) (hrow : Listed lost (pre ++ b :: post)) (hne : lost ≠ [])
    (hown : span pre ∉ lost) (hnext : span pre + b.extent ∉ lost) (hg : size % granule = 0)
    (hlt : b.size < size) (hnone : ¬ b.HasRoomBehind size post) (site : CallSite) :
    Met lost guard m.arena (m.arena.Overlooked lost ⟨span pre, b.headerIn pre post⟩ size) n
      (relocate .none (span pre) b.size size site n) := by
  have hiff := overlooked_moved_iff hs.lists hlt hnone hown hnext hne
  rcases takeSegment_overwritten hs hm.arena hrow hne hg .none site with
    ⟨t, ht, hlost, hsearched, hrun⟩ | ⟨hplace, xs, c, ys, hc, hfind, hfits, hkept, hruns, hstops⟩
  · obtain ⟨j, hrun⟩ := hrun n rfl
    unfold relocate
    rw [run_bind_error hrun]
    exact .early j (fun h => (hiff.mp h).1 t ht hlost hsearched) ht hlost
  by_cases hlong : Word.maxRequest < c.size
  · obtain ⟨j, hrun⟩ := hstops hlong n rfl
    unfold relocate
    rw [run_bind_error hrun]
    exact .tooLong j fun h => Nat.not_lt.mpr ((hiff.mp h).2 _ hfind) hlong
  · have hmax := Nat.le_of_not_lt hlong
    obtain ⟨m₁, n₁, htake, htake', hm₁, -⟩ := hruns hmax m n rfl rfl hm
    obtain ⟨t, ht, hlost, n', hrun, haround, hchanged⟩ := relocate_overdue hs hu hm hrow hne hown hg
      hlt site hc hfits hkept htake htake' hm₁
    rw [hrun]
    refine .overdue (hiff.mpr ⟨hplace, fun c' hc' => ?_⟩) ht hlost haround hchanged
    rw [hfind] at hc'
    cases hc'
    exact hmax

/-! ### Resizing -/

/-- The look for room reads the header behind the block. -/
theorem roomBehind_overwritten {a a' : Arena} (size : Nat) (hl : a.Lists (pre ++ b :: post))
    (ho : a.Overwritten lost guard a') (hrow : Listed lost (pre ++ b :: post)) :
    (∃ t ∈ a.walk.segments, t.offset ∈ lost ∧ t.offset = span pre + b.extent ∧
        roomBehind a' (span pre) size (b.headerIn pre post) =
          .error (.detected (a.corruption guard t))) ∨
      (span pre + b.extent ∉ lost ∧ roomBehind a' (span pre) size (b.headerIn pre post) =
        roomBehind a (span pre) size (b.headerIn pre post)) := by
  unfold roomBehind
  rw [ho.successor_eq, hl.successor]
  cases post with
  | nil =>
    refine Or.inr ⟨fun hlost => ?_, rfl⟩
    obtain ⟨_, _, h⟩ := hrow.exists_next hlost
    cases h
  | cons y rest =>
    have hy := Arena.Lists.concat_iff.mpr hl
    have hread := hy.read_overwritten ho (by simpa using hrow)
    rw [span_concat] at hread
    rw [firstLink_cons]
    simp only [bind, Except.bind, hread]
    by_cases hlost : span pre + b.extent ∈ lost
    · refine Or.inl ⟨⟨span (pre ++ [b]), y.headerIn (pre ++ [b]) rest⟩,
        hl.mem_walk_iff.mpr ⟨pre ++ [b], y, rest, by simp, rfl⟩, ?_, span_concat pre b, ?_⟩
      · rwa [span_concat]
      · rw [if_pos hlost, span_concat]
    · have hintact := hy.read
      rw [span_concat] at hintact
      rw [if_neg hlost, hintact]
      exact Or.inr ⟨hlost, rfl⟩

/-- How resizing a live block ends, under the lock. -/
theorem resizeBlock_met (hs : m.arena.Sound m.platform (pre ++ b :: post)) (hu : b.used = true)
    (hfilled : 0 < b.size) (hm : m.Marred lost guard n) (hrow : Listed lost (pre ++ b :: post))
    (hne : lost ≠ []) (hg : size % granule = 0) (site : CallSite) :
    Met lost guard m.arena (m.arena.Overlooked lost ⟨span pre, b.headerIn pre post⟩ size) n
      (resizeBlock .none (m.arena.payload (span pre)) size site n) := by
  have hl := hs.lists
  have hlocate := (hm.locate_eq _).trans (hl.locate_payload hfilled)
  have hread := hl.read_overwritten hm.arena hrow
  by_cases hown : span pre ∈ lost
  · rw [if_pos hown] at hread
    have hrun : resizeBlock .none (m.arena.payload (span pre)) size site n = .error
        (.detected (m.arena.corruption guard ⟨span pre, b.headerIn pre post⟩)) n := by
      unfold resizeBlock
      rw [run_bind_ok (run_get n)]
      dsimp only
      rw [hlocate, run_bind_ok (run_lift_ok _ _), hread, run_bind_error (run_lift_error _ _)]
    rw [hrun]
    refine .early n.journal (fun h => ?_) (hl.mem_walk_iff.mpr ⟨pre, b, post, rfl, rfl⟩) hown
    cases h with
    | cut _ own => exact own hown
    | moved _ _ own => exact own hown
  · rw [if_neg hown] at hread
    rw [resizeBlock_of_read hlocate hread hu, Block.headerIn_size]
    rcases Nat.lt_or_ge b.size size with hlt | hle
    · have hsmall : ¬ headerSize < b.size - size := by omega
      rw [if_neg (Nat.not_le.mpr hlt)]
      rcases roomBehind_overwritten size hl hm.arena hrow with
        ⟨t, ht, hlost, hoff, hroom⟩ | ⟨hnext, hroom⟩
      · rw [hroom, run_bind_error (run_lift_error _ _)]
        refine .early n.journal (fun h => ?_) ht hlost
        cases h with
        | cut hsplit => exact hsmall hsplit
        | moved _ _ _ next =>
          rw [stop_segment, span_concat] at next
          exact next (hoff ▸ hlost)
      · rw [hroom]
        rcases roomBehind_eq size hl with ⟨⟨y, rest, rfl, hy, hfits⟩, hfound⟩ | ⟨hnone, hfound⟩
        · rw [hfound, run_bind_ok (run_lift_ok _ _)]
          refine (growInPlace_met (fun h => ?_) hs hu hm hrow hown hnext hy hg (Nat.le_of_lt hlt)
            hfits).answer _
          cases h with
          | cut hsplit => exact hsmall hsplit
          | moved _ hnone => exact hnone _ (hl.behind_cons hy hfits)
        · rw [hfound, run_bind_ok (run_lift_ok _ _)]
          exact relocate_met hs hu hm hrow hne hown hnext hg hlt hnone site
    · rw [if_pos hle]
      exact (shrink_met hs hu hm hrow hown hg hle).answer _

/-- How resizing a live block ends: damage it overlooks is reported when memory has changed,
and any other before, or not at all.  Then the call returns or has come to a payload that is
too long. -/
theorem reallocate_overwritten (hs : m.Served (pre ++ b :: post)) (ho : m.Open)
    (hu : b.used = true) (hm : m.Marred lost guard n) (hrow : Listed lost (pre ++ b :: post))
    (hne : lost ≠ []) (hpos : 0 < size) (hmax : size ≤ Word.maxRequest) (site : CallSite) :
    (m.arena.Overlooked lost ⟨span pre, b.headerIn pre post⟩ (Word.roundUp size) ∧
        ∃ t ∈ m.arena.walk.segments, t.offset ∈ lost ∧ ∃ n',
          reallocate .none (m.arena.payload (span pre)) size site n =
            .error (.fatal ⟨m.arena.corruption guard t,
              ⟨site, m.context.id, m.context.cpu⟩⟩) n' ∧
          ∃ i, n'.arena.memory.get i ≠ n.arena.memory.get i) ∨
      ¬ m.arena.Overlooked lost ⟨span pre, b.headerIn pre post⟩ (Word.roundUp size) ∧
        ((∃ t ∈ m.arena.walk.segments, t.offset ∈ lost ∧
            n.Reports site (m.arena.corruption guard t)
              (reallocate .none (m.arena.payload (span pre)) size site n)) ∨
          (∃ r n', reallocate .none (m.arena.payload (span pre)) size site n = .ok r n') ∨
          ∃ n', reallocate .none (m.arena.payload (span pre)) size site n =
            .error (.panic .payloadTooLong) n') := by
  have hb : (span pre, b) ∈ live 0 (pre ++ b :: post) :=
    mem_live_iff.mpr ⟨hu, pre, post, rfl, (Nat.zero_add _).symm⟩
  have hlock := hm.lock_eq.trans hs.lock_eq
  obtain ⟨j, -, hends⟩ :=
    exists_resized hlock (hm.isOpen ho) hpos hmax (hs.payload_eq hb).2 site
  have hmet : Met lost guard m.arena
      (m.arena.Overlooked lost ⟨span pre, b.headerIn pre post⟩ (Word.roundUp size))
      (n.entered site j) (resizeBlock .none (m.arena.payload (span pre)) (Word.roundUp size) site
        (n.entered site j)) :=
    resizeBlock_met (m := m.entered site j) hs.sound hu (hs.filled _ hb) (hm.entered site j j) hrow
      hne (Word.roundUp_mod size) site
  generalize resizeBlock .none (m.arena.payload (span pre)) (Word.roundUp size) site
    (n.entered site j) = r at hends hmet
  cases hmet with
  | returned hlate around =>
    obtain ⟨j', hok, -⟩ := hends (by rw [around.lock_eq]; rfl)
    exact Or.inr ⟨hlate, Or.inr (Or.inl ⟨_, _, hok⟩)⟩
  | tooLong j' hlate =>
    obtain ⟨i, herror⟩ := hends rfl
    exact Or.inr ⟨hlate, Or.inr (Or.inr ⟨_, herror⟩)⟩
  | early j' hlate ht hlost =>
    obtain ⟨i, herror⟩ := hends rfl
    refine Or.inr ⟨hlate, Or.inl ⟨_, ht, hlost, i, herror.trans ?_⟩⟩
    exact congrArg _ (left_entered hlock site j' i)
  | overdue hlate ht hlost around changed =>
    obtain ⟨i, herror⟩ := hends (by rw [around.lock_eq]; rfl)
    rw [around.context_eq, show (n.entered site j).context = m.context from hm.context_eq]
      at herror
    exact Or.inl ⟨hlate, _, ht, hlost, _, herror, changed⟩

end Moving
end Machine
end GuardedHeap
