/-
  Proofs/Resize.lean --- changing the size of a block.

  WHAT THIS FILE IS FOR.  A block is cut down in place, or grows over the free
  block behind it, or moves to a new place.  What is cut off is cleared, merged
  with what is free behind it, and given back as far as possible.

  WHAT IS PROVED.  Cutting always succeeds on a live block of a sound heap, and so does
  growing in place over an object; moving does if the new place is found.  The heap is sound
  afterwards, and among its live blocks only the one that was resized changed.
  Whatever free memory holds, growing in place succeeds, unless what is grown over
  was changed and it is known who freed it.  Over a free block longer than an object
  may be nothing grows.
-/
import GuardedHeap.Proofs.Placement
import GuardedHeap.Proofs.Release

set_option autoImplicit false

namespace GuardedHeap

/-- The first of the blocks behind is free, and together they give `size` bytes. -/
def Block.HasRoomBehind (b : Block) (size : Nat) (post : List Block) : Prop :=
  ∃ y rest, post = y :: rest ∧ y.used = false ∧ size ≤ b.size + headerSize + y.size

namespace Machine

/-! ## Cutting down -/

/-- The tail that was cut off is cleared and merged with what is free behind it. -/
theorem exists_tailMerged {m : Machine} {pre post : List Block} {c : Block}
    (hl : m.arena.Lists (pre ++ c :: post)) (hc : c.used = false) (hpre : Tidy pre)
    (hend : EndsUsed pre) (hpost : Tidy post) :
    ∃ z back a,
      onArena (do
        let a ← get
        let h ← a.read (span pre)
        Arena.clearPayload (span pre) h.size
        let next ← (← get).successor (span pre) h
        Arena.absorb (span pre) next) m = .ok (span pre) { m with arena := a } ∧
      a.Lists (pre ++ z :: back) ∧ m.arena.Inside a ∧ (z.used = false ∧ z.record = c.record) ∧
      Tidy (pre ++ z :: back) ∧ MergedAhead post back ∧
      live 0 (pre ++ z :: back) = live 0 pre ++ live (span pre + c.extent) post := by
  obtain ⟨a₁, hrun₁, hlists₁, hin₁⟩ := hl.clearPayload
  obtain ⟨z, back, hahead, hz, hback, hlive, hmerged, hclear⟩ :=
    exists_mergeAhead (x := { c with bytes := fun _ => 0 }) hpost hc
  obtain ⟨a₂, hrun₂, hlists₂, hin₂⟩ := hlists₁.absorb_next
  rw [hahead] at hlists₂
  have hnext : a₁.successor (span pre) (c.headerIn pre post) =
      .ok (firstLink (span pre + c.extent) post none) := hlists₁.successor
  have hrecord : z.record = c.record := (record_of_mergeAhead hahead).trans rfl
  refine ⟨z, back, a₂, run_onArena_ok ?_, hlists₂, hin₁.trans hin₂, ⟨hz, hrecord⟩,
    (tidy_free hz).mpr ⟨⟨hpre, hend⟩, hclear fun _ _ _ => rfl, hback⟩, hmerged, ?_⟩
  · rw [run_bind_ok (run_get _), hl.read, run_bind_ok (run_lift_ok _ _), Block.headerIn_size,
      run_bind_ok hrun₁, run_bind_ok (run_get _), hnext, run_bind_ok (run_lift_ok _ _)]
    exact hrun₂
  · rw [live_append, live_cons_free hz, Nat.zero_add, hlive (span pre)]
    rfl

/-- Cutting a live block down always succeeds, and no call is remembered for it. -/
theorem run_shrink {m : Machine} {pre post : List Block} {b : Block} {size : Nat}
    (hs : m.arena.Sound m.platform (pre ++ b :: post)) (hu : b.used = true)
    (hg : size % granule = 0) (hle : size ≤ b.size) :
    ∃ m' bs', shrink .none (span pre) size m = .ok () m' ∧ m'.arena.Sound m'.platform bs' ∧
      m.Around m' ∧
      live 0 bs' =
        live 0 pre ++ (span pre, b.taken size) :: live (span pre + b.extent) post ∧
      ∀ x, Marked 0 bs' x → Marked 0 (pre ++ b :: post) x := by
  obtain ⟨a, hrun, hlists, hin⟩ := hs.lists.occupy hg hle
  have hused := Block.used_taken b size
  unfold shrink
  rcases b.leftover_cases size with ⟨hsplit, -⟩ | ⟨hwhole, hleft⟩
  · obtain ⟨hpre, hpost⟩ := (tidy_used hu).mp hs.orderly.toTidy
    have htidy : Tidy (pre ++ [b.taken size]) := (tidy_used hused).mpr ⟨hpre, tidy_nil⟩
    rw [Block.append_carve_of_split hsplit] at hlists
    obtain ⟨z, back, a', hmerge, hmerged, hin', ⟨hz, hrecord⟩, hmergedTidy, hback, hlive⟩ :=
      exists_tailMerged (m := { m with arena := a }) hlists rfl htidy
        ((endsUsed_concat pre _).mpr hused) hpost
    obtain ⟨m', htrim, hsound, haround, hkept⟩ :=
      run_trim_inside hs (hin.trans hin') hmerged hz hmergedTidy hback.suffix
    refine ⟨m', _, ?_, hsound, haround, ?_, ?_⟩
    · rw [run_bind_ok (run_onArena_ok hrun), if_pos hsplit, ← Block.span_taken_of_split hsplit]
      exact (run_bind_ok hmerge).trans htrim
    · rw [hkept, hlive, Block.span_remnant_of_split hsplit, live_append, live_cons_used hused,
        Nat.zero_add, live_nil, List.append_assoc, List.singleton_append]
    · intro x hx
      have hspan : span (pre ++ [b.taken size] ++ z :: back) =
          span (pre ++ [b.taken size] ++ b.remnant size :: post) := by
        rw [← hmerged.top_eq, ← hlists.top_eq]
        exact hin'.top_eq
      rw [span_append, span_append _ (_ :: post), span_cons, span_cons, ← Nat.add_assoc,
        ← Nat.add_assoc, Block.span_remnant_of_split hsplit] at hspan
      have hnone : z.freedAt = none := congrArg Record.freedAt hrecord
      refine marked_beside ((marked_trimmed_used hused hnone hx).imp_right fun hx => ?_)
      rw [Nat.zero_add]
      exact marked_behind hback hspan hx
  · -- the block stays as it is
    have hext := b.extent_taken hle
    rw [hleft, span_nil, Nat.add_zero] at hext
    rw [Block.append_carve_of_whole hwhole] at hlists
    obtain ⟨horder, hlive⟩ := hs.orderly.replace_used hu hused hext
    refine ⟨{ m with arena := a }, _, ?_, ⟨hlists, hs.backed.inside hin, ?_⟩, around_onArena hin,
      hlive, fun x hx => marked_of_used hused hext hx⟩
    · rw [run_bind_ok (run_onArena_ok hrun), if_neg hwhole]
      rfl
    · rw [(around_onArena hin).window_eq]
      exact horder

/-! ## Growing in place -/

/-- The free block behind, if together they give enough, is what is found. -/
theorem roomBehind_eq {a : Arena} {pre post : List Block} {b : Block} (size : Nat)
    (hl : a.Lists (pre ++ b :: post)) :
    (b.HasRoomBehind size post ∧
        roomBehind a (span pre) size (b.headerIn pre post) = .ok (some (span pre + b.extent))) ∨
      (¬ b.HasRoomBehind size post ∧
        roomBehind a (span pre) size (b.headerIn pre post) = .ok none) := by
  unfold roomBehind
  rw [hl.successor]
  cases post with
  | nil => exact Or.inr ⟨fun ⟨_, _, h, _⟩ => (List.cons_ne_nil _ _ h.symm).elim, rfl⟩
  | cons y rest =>
    have hy := Arena.Lists.concat_iff.mpr hl
    have hoff := span_concat pre b
    have hread := hy.read
    rw [hoff] at hread
    have hstop := hy.stop_le
    have htop := Arena.top_lt hl.top_le
    have hb : b.extent = headerSize + b.size := rfl
    have hye : y.extent = headerSize + y.size := rfl
    have hadd : Word.add (b.headerIn pre (y :: rest)).size headerSize =
        .ok (b.size + headerSize) := by
      rw [Block.headerIn_size]
      exact Word.add_eq_ok.mpr ⟨rfl, by omega⟩
    have hsum : Word.add (b.size + headerSize) (y.headerIn (pre ++ [b]) rest).size =
        .ok (b.size + headerSize + y.size) := by
      rw [Block.headerIn_size]
      exact Word.add_eq_ok.mpr ⟨rfl, by omega⟩
    rw [firstLink_cons]
    simp only [bind, Except.bind, hread]
    by_cases hu : (y.headerIn (pre ++ [b]) rest).used = true
    · refine Or.inr ⟨?_, if_pos hu⟩
      rintro ⟨_, _, ⟨rfl, rfl⟩, hy, -⟩
      exact absurd hu (Bool.eq_false_iff.mp hy)
    · rw [if_neg hu]
      simp only [hadd, hsum]
      by_cases hfits : size ≤ b.size + headerSize + y.size
      · refine Or.inl ⟨⟨y, rest, rfl, Bool.eq_false_iff.mpr hu, hfits⟩, ?_⟩
        rw [if_pos hfits]
        rfl
      · refine Or.inr ⟨?_, ?_⟩
        · rintro ⟨_, _, ⟨rfl, rfl⟩, -, hle⟩
          exact hfits hle
        · rw [if_neg hfits]
          rfl

theorem clear_remnant_fuse {b y : Block} {size : Nat} (hy : y.used = false) (hc : y.Clear)
    (hmore : b.size ≤ size) : ((b.fuse y).remnant size).Clear := by
  apply Block.clear_remnant
  intro i h1 h2
  simp only [Block.fuse] at h2 ⊢
  rw [if_neg (by omega)]
  split
  · rfl
  · exact hc hy _ (by omega)

/-- A block takes over the free one behind it, of which what is not needed is left. -/
theorem exists_overgrown {m : Machine} {pre rest : List Block} {b y : Block} {size : Nat}
    (hl : m.arena.Lists (pre ++ b :: y :: rest)) (hy : y.used = false)
    (hg : size % granule = 0) (hle : size ≤ (b.fuse y).size) :
    ∃ a,
      onArena (do
        let _ ← Arena.absorb (span pre) (some (span pre + b.extent))
        Arena.occupy (span pre) size) m =
          .ok (if headerSize < (b.fuse y).size - size then some (span pre + headerSize + size)
            else none) { m with arena := a } ∧
      a.Lists (pre ++ ((b.fuse y).carve size ++ rest)) ∧ m.arena.Inside a := by
  obtain ⟨a₁, hrun₁, hlists₁, hin₁⟩ := hl.absorb_next
  rw [firstLink_cons] at hrun₁
  rw [mergeAhead, if_neg (by simp [hy])] at hlists₁
  obtain ⟨a₂, hrun₂, hlists₂, hin₂⟩ := hlists₁.occupy hg hle
  refine ⟨a₂, run_onArena_ok ?_, hlists₂, hin₁.trans hin₂⟩
  rw [run_bind_ok hrun₁]
  exact hrun₂

/-- A row in which a block took over what was behind it and now is `x`, of which it needs
`size` bytes: what is left over is trimmed. -/
def overgrown (floor size : Nat) (pre : List Block) (x : Block) (rest : List Block) : List Block :=
  if headerSize < x.size - size then trimmed floor (pre ++ [x.taken size]) (x.remnant size) rest
  else pre ++ x.taken size :: rest

/-- How an attempt of the block `b` to grow over the free block `y` behind it ends, whatever
free memory holds. -/
inductive Overgrown (size : Nat) (pre rest : List Block) (b y : Block) (m : Machine) :
    EStateM.Result Fault Machine Unit → Prop
  /-- it did -/
  | done {m' : Machine} {d : Block} {lines : List LogLine} (hmax : y.size ≤ Word.maxRequest)
      (hp : y.Passes (m.arena.payload (span pre + b.extent)) d lines)
      (lists : m'.arena.Lists (overgrown m.arena.window.floor size pre (b.fuse d) rest))
      (backed : m'.arena.Backed m'.platform) (around : m.Around m')
      (warnings_eq : m'.warnings = m.warnings ++ lines) :
      Overgrown size pre rest b y m (.ok () m')
  /-- what it grows over was changed after it had been freed -/
  | caught {i : Nat} {freedAt : CallSite} (hmax : y.size ≤ Word.maxRequest) (hc : y.Changed i)
      (hf : y.freedAt = some freedAt) :
      Overgrown size pre rest b y m
        (.error (.detected (.useAfterFree (m.arena.payload (span pre + b.extent) + i) (y.bytes i)
          freedAt)) m)
  /-- what it would grow over is longer than an object may be -/
  | tooLong (hlong : Word.maxRequest < y.size) :
      Overgrown size pre rest b y m (.error (.panic .payloadTooLong) m)

theorem Overgrown.around {size : Nat} {pre rest : List Block} {b y : Block} {m : Machine}
    {r : EStateM.Result Fault Machine Unit} (h : Overgrown size pre rest b y m r) :
    Ends (fun _ n => m.Around n) (fun _ n => m.Around n) r := by
  cases h with
  | done hmax hp lists backed around warnings_eq => exact around
  | caught hmax hc hf => exact Around.refl m
  | tooLong hlong => exact Around.refl m

/-- Growing in place over a free block that gives enough. -/
theorem growInPlace_cases {m : Machine} {pre rest : List Block} {b y : Block} {size : Nat}
    (hl : m.arena.Lists (pre ++ b :: y :: rest)) (hb : m.arena.Backed m.platform)
    (hy : y.used = false) (hg : size % granule = 0) (hfits : size ≤ b.size + headerSize + y.size) :
    Overgrown size pre rest b y m (growInPlace .none (span pre) size (span pre + b.extent) m) := by
  have hoff := span_concat pre b
  have hcheck := checkClear_cases (Arena.Lists.concat_iff.mpr hl) hy
  rw [hoff] at hcheck
  unfold growInPlace
  generalize hk : checkClear (span pre + b.extent) m = k at hcheck
  cases hcheck with
  | tooLong hlong =>
    rw [run_bind_error hk]
    exact .tooLong hlong
  | caught hmax hc hf =>
    rw [run_bind_error hk, hoff]
    exact .caught hmax hc hf
  | @passes d lines a hmax hp lists inside =>
    have hd : d.used = false := hp.used_eq.trans hy
    have hle : size ≤ (b.fuse d).size := by
      have hsize := hp.size_eq
      simp only [Block.fuse]
      omega
    obtain ⟨a', hrun, hlists, hin⟩ := exists_overgrown
      (m := { m with arena := a, journal := m.journal ++ lines.toArray })
      (Arena.Lists.concat_iff.mp lists) hd hg hle
    have hinside : m.arena.Inside a' := inside.trans hin
    obtain ⟨n, hn⟩ : ∃ n : Machine,
        n = { m with arena := a', journal := m.journal ++ lines.toArray } := ⟨_, rfl⟩
    have haround : m.Around n := by
      rw [hn]
      exact ⟨hinside.window_eq, rfl, rfl, rfl, rfl, rfl⟩
    have hbacked : n.arena.Backed n.platform := by
      rw [hn]
      exact hb.inside hinside
    have hwarnings : n.warnings = m.warnings ++ lines := by
      rw [hn]
      exact warnings_checked hp m a'
    have hrow : n.arena.Lists (pre ++ ((b.fuse d).carve size ++ rest)) := by
      rw [hn]
      exact hlists
    rw [hoff] at hp
    rw [run_bind_ok hk, run_bind_ok hrun, ← hn]
    by_cases hsplit : headerSize < (b.fuse d).size - size
    · rw [Block.append_carve_of_split hsplit] at hrow
      obtain ⟨m', htrim, htrimmed, hbacked', haround'⟩ := run_trim hrow hbacked rfl
      rw [haround.window_eq] at htrimmed
      rw [if_pos hsplit, ← Block.span_taken_of_split hsplit]
      dsimp only
      rw [htrim]
      refine .done hmax hp ?_ hbacked' (haround.trans haround') ?_
      · unfold overgrown
        rw [if_pos hsplit]
        exact htrimmed
      · have hquiet := ((writes_trim _ n).of_ok htrim).warnings_eq fun _ => LogLine.OfPage.level_ne
        exact hquiet.trans hwarnings
    · rw [Block.append_carve_of_whole hsplit] at hrow
      rw [if_neg hsplit]
      refine .done hmax hp ?_ hbacked haround hwarnings
      unfold overgrown
      rw [if_neg hsplit]
      exact hrow

/-- Growing over a clear block keeps a row in order, and of the live blocks only the one that
grew changes.  No call is remembered for it. -/
theorem orderly_overgrown {floor : Nat} {pre rest : List Block} {b y : Block} {size : Nat}
    (ho : Orderly floor (pre ++ b :: y :: rest)) (hfloor : floor ≤ span (pre ++ b :: y :: rest))
    (hu : b.used = true) (hy : y.used = false) (hmore : b.size ≤ size)
    (hfits : size ≤ b.size + headerSize + y.size) :
    Orderly floor (overgrown floor size pre (b.fuse y) rest) ∧
      live 0 (overgrown floor size pre (b.fuse y) rest) =
        live 0 pre ++ (span pre, (b.fuse y).taken size) ::
          live (span pre + b.extent) (y :: rest) ∧
      ∀ x, Marked 0 (overgrown floor size pre (b.fuse y) rest) x →
        Marked 0 (pre ++ b :: y :: rest) x := by
  -- on either side of the grown block and its remnant stand used blocks
  obtain ⟨hpre, hyrest⟩ := (tidy_used hu).mp ho.toTidy
  have hnil : Tidy ([] ++ y :: rest) := hyrest
  obtain ⟨-, hclear, hrest, hstart⟩ := (tidy_free hy).mp hnil
  have hle : size ≤ (b.fuse y).size := by
    simp only [Block.fuse]
    omega
  have hused := Block.used_taken (b.fuse y) size
  have hbehind : ∀ x, Marked 0 pre x ∨ Marked (span pre + b.extent + y.extent) rest x →
      Marked 0 (pre ++ b :: y :: rest) x := by
    intro x hx
    refine marked_beside (hx.imp_right fun hx => ?_)
    rw [Nat.zero_add, marked_cons]
    exact Or.inr hx
  unfold overgrown
  rw [live_cons_free hy]
  by_cases hsplit : headerSize < (b.fuse y).size - size
  · have htidy : Tidy (pre ++ [(b.fuse y).taken size]) := (tidy_used hused).mpr ⟨hpre, tidy_nil⟩
    have hremnant : ((b.fuse y).remnant size).Clear := clear_remnant_fuse hy hclear hmore
    have hspan : span ((pre ++ [(b.fuse y).taken size]) ++ (b.fuse y).remnant size :: rest) =
        span (pre ++ b :: y :: rest) := by
      rw [← Block.append_carve_of_split hsplit, span_append, span_append, Block.span_carve _ hle,
        Block.extent_fuse]
      simp [Nat.add_assoc]
    obtain ⟨horder, hkept⟩ := orderly_trimmed
      ((tidy_free rfl).mpr ⟨⟨htidy, (endsUsed_concat pre _).mpr hused⟩, hremnant, hrest, hstart⟩)
      rfl (fun hne => ho.settled.replace (List.suffix_cons y rest) hne hspan)
      (hspan ▸ hfloor)
    rw [if_pos hsplit]
    refine ⟨horder, ?_, ?_⟩
    · rw [hkept, live_append, live_cons_free rfl, Nat.zero_add,
        Block.span_remnant_of_split hsplit, Block.extent_fuse, ← Nat.add_assoc, live_append,
        live_cons_used hused, Nat.zero_add, live_nil, List.append_assoc, List.singleton_append]
    · intro x hx
      have hmarked := marked_trimmed_used hused rfl hx
      rw [Block.span_remnant_of_split hsplit, Block.extent_fuse, ← Nat.add_assoc] at hmarked
      exact hbehind x hmarked
  · have hext := (b.fuse y).extent_taken hle
    rw [Block.leftover, if_neg hsplit, span_nil, Nat.add_zero, Block.extent_fuse] at hext
    have hsettled : Settled floor (pre ++ (b.fuse y).taken size :: rest) := by
      by_cases hne : rest = []
      · subst hne
        exact settled_of_endsUsed ((endsUsed_concat pre _).mpr hused)
      · exact ho.settled.replace (List.suffix_cons y rest) hne (by simp [hext, Nat.add_assoc])
    rw [if_neg hsplit]
    refine ⟨⟨(tidy_used hused).mpr ⟨hpre, hrest⟩, hsettled⟩, ?_, ?_⟩
    · rw [live_append, live_cons_used hused, Nat.zero_add, hext, Nat.add_assoc]
    · intro x hx
      rw [marked_around (Block.not_remembers_of_used hused), hext, Nat.zero_add,
        ← Nat.add_assoc] at hx
      exact hbehind x hx

/-- A live block of a sound heap may grow over a free one behind it that gives enough and is
an object, and no call is remembered for it. -/
theorem run_growInPlace {m : Machine} {pre rest : List Block} {b y : Block} {size : Nat}
    (hs : m.arena.Sound m.platform (pre ++ b :: y :: rest)) (hu : b.used = true)
    (hy : y.used = false) (hg : size % granule = 0) (hmore : b.size ≤ size)
    (hfits : size ≤ b.size + headerSize + y.size) (hmax : y.size ≤ Word.maxRequest) :
    ∃ m' bs', growInPlace .none (span pre) size (span pre + b.extent) m = .ok () m' ∧
      m'.arena.Sound m'.platform bs' ∧ m.Around m' ∧
      live 0 bs' =
        live 0 pre ++ (span pre, (b.fuse y).taken size) ::
          live (span pre + b.extent) (y :: rest) ∧
      ∀ x, Marked 0 bs' x → Marked 0 (pre ++ b :: y :: rest) x := by
  have hclear : y.Clear := hs.orderly.clear y (by simp)
  have hfloor := hs.backed.floor_le
  rw [hs.lists.top_eq] at hfloor
  obtain ⟨horder, hlive, hmarked⟩ := orderly_overgrown hs.orderly hfloor hu hy hmore hfits
  have hcases := growInPlace_cases hs.lists hs.backed hy hg hfits
  generalize growInPlace .none (span pre) size (span pre + b.extent) m = r at hcases
  cases hcases with
  | @done m' d lines _ hp lists backed around warnings_eq =>
    obtain ⟨rfl, -⟩ := hp.eq_of_clear hy hclear
    exact ⟨m', _, rfl, ⟨lists, backed, around.window_eq ▸ horder⟩, around, hlive, hmarked⟩
  | caught _ hc hf => exact absurd (hclear hy _ hc.lt_size) hc.ne_zero
  | tooLong hlong => exact absurd hmax (Nat.not_le.mpr hlong)

theorem run_growInPlace_tooLong {m : Machine} {pre rest : List Block} {b y : Block}
    (hl : m.arena.Lists (pre ++ b :: y :: rest)) (hy : y.used = false)
    (hlong : Word.maxRequest < y.size) (size : Nat) :
    growInPlace .none (span pre) size (span pre + b.extent) m =
      .error (.panic .payloadTooLong) m := by
  have hread := (Arena.Lists.concat_iff.mpr hl).read
  rw [span_concat] at hread
  unfold growInPlace
  exact run_bind_error (run_checkClear_tooLong hread hy hlong)

/-! ## Moving -/

theorem stamp_of_around {m n : Machine} (h : m.Around n) (site : CallSite) :
    n.stamp site = m.stamp site := by
  unfold stamp
  rw [h.tracing_eq, h.context_eq]

/-- A new block that was made in the place of `b`, whose bytes it holds. -/
def movedBlock (m : Machine) (size : Nat) (site : CallSite) (c b : Block) : Block :=
  { m.newBlock size site c with
    bytes := fun i => if i < b.size then b.bytes i else (m.newBlock size site c).bytes i }

/-- How an attempt to move the block `b` at an offset ends. -/
inductive Relocated (off size : Nat) (site : CallSite) (b : Block) (bs : List Block)
    (m : Machine) : EStateM.Result Fault Machine Nat → Prop
  /-- the block is in its new place and nowhere else -/
  | done {m' : Machine} {bs' pre post : List Block} {c : Block} (hf : Found size bs pre c post)
      (hmax : c.size ≤ Word.maxRequest) (room : m.HasRoom size bs)
      (sound : m'.arena.Sound m'.platform bs') (around : m.Around m')
      (moved : List.Perm ((off, b) :: live 0 bs')
        ((span pre, m.movedBlock size site c b) :: live 0 bs))
      (credited : Credited (m.stamp site) site bs bs') :
      Relocated off size site b bs m (.ok (m.arena.payload (span pre)) m')
  /-- there was no new place -/
  | failed {m' : Machine} {e : Fault} (placed : Placed size site bs m (.error e m')) :
      Relocated off size site b bs m (.error e m')

/-- Copying the payload of one live block into that of a new one. -/
theorem exists_copied {m n : Machine} {bs pre post : List Block} {c b : Block} {off size : Nat}
    {site : CallSite} (hf : Found size bs pre c post) (ho : Orderly m.arena.window.floor bs)
    (hs : n.arena.Sound n.platform (pre ++ m.newBlock size site c :: (c.leftover size ++ post)))
    (haround : m.Around n) (hb : (off, b) ∈ live 0 bs) (hle : b.size ≤ size) :
    ∃ a, Arena.copyBytes (off + headerSize) (span pre + headerSize) b.size n.arena = .ok () a ∧
      a.Sound n.platform (pre ++ m.movedBlock size site c b :: (c.leftover size ++ post)) ∧
      n.arena.Inside a ∧ (off, b) ∈ live 0 (pre ++ m.movedBlock size site c b ::
        (c.leftover size ++ post)) ∧
      List.Perm (live 0 (pre ++ m.movedBlock size site c b :: (c.leftover size ++ post)))
        ((span pre, m.movedBlock size site c b) :: live 0 bs) := by
  have hused : (m.newBlock size site c).used = true := Block.used_taken c size
  have hsize : size ≤ (m.newBlock size site c).size := Block.le_size_taken hf.le_size
  obtain ⟨horder, -⟩ := hf.orderly (d := m.movedBlock size site c b) ho hused rfl
  have hperm := hf.perm_live (d := m.movedBlock size site c b) ho hused rfl
  -- the block to copy from stands beside the new one
  have hmem : (off, b) ∈ live 0 (pre ++ m.newBlock size site c :: (c.leftover size ++ post)) :=
    (hf.perm_live ho hused rfl).mem_iff.mpr (List.mem_cons_of_mem _ hb)
  obtain ⟨-, preb, postb, hrow, hoff⟩ := mem_live_iff.mp hmem
  rw [Nat.zero_add] at hoff
  have hlists := hs.lists
  rw [hrow] at hlists
  have hbytes := hlists.stands.payload
  rw [← hoff] at hbytes
  have hkeep := hs.lists.stands.payload
  have hext : (m.newBlock size site c).extent = headerSize + (m.newBlock size site c).size := rfl
  obtain ⟨hcopied, hin⟩ := hs.lists.overwrite
    (m := n.arena.memory.copy (off + headerSize) (span pre + headerSize) b.size)
    (m.movedBlock size site c b).bytes
    (fun i hi => by
      rw [Memory.get_copy]
      simp only [movedBlock]
      by_cases hlow : i < b.size
      · rw [if_pos (by omega), if_pos hlow, ← hbytes i hlow, Nat.add_sub_cancel_left]
      · rw [if_neg (by omega), if_neg hlow]
        exact hkeep i hi)
    (fun i hi => by
      rw [Memory.get_copy, if_neg (by omega)])
  refine ⟨_, rfl, ⟨hcopied, hs.backed.inside hin, ?_⟩, hin, ?_, hperm⟩
  · rw [hin.window_eq, haround.window_eq]
    exact horder
  · exact hperm.mem_iff.mpr (List.mem_cons_of_mem _ hb)

/-- Moving a live block of a sound heap to a place of larger size. -/
theorem relocate_cases {m : Machine} {bs : List Block} {b : Block} {off size : Nat}
    (site : CallSite) (hs : m.arena.Sound m.platform bs) (hb : (off, b) ∈ live 0 bs)
    (hg : size % granule = 0) (hle : b.size ≤ size) :
    Relocated off size site b bs m (relocate .none off b.size size site m) := by
  unfold relocate
  have hplaced := takeSegment_cases site hs hg
  generalize hr : takeSegment .none size site m = r at hplaced
  cases r with
  | error e m' =>
    rw [run_bind_error hr]
    exact .failed hplaced
  | ok target n =>
    cases hplaced with
    | @done _ pre post c hf hmax room sound around =>
      obtain ⟨a, hcopy, hsound, hin, hmem, hperm⟩ :=
        exists_copied hf hs.orderly sound around hb hle
      obtain ⟨hu, preb, postb, hrow, hoff⟩ := mem_live_iff.mp hmem
      rw [Nat.zero_add] at hoff
      have hsound' : Arena.Sound (arena { n with arena := a }) (platform { n with arena := a })
          (preb ++ b :: postb) := hrow ▸ hsound
      obtain ⟨m', bs', hrun, hfinal, haround, hreleased, hcredited⟩ :=
        run_releaseSegment site hsound' hu
      rw [← hrow, ← hoff] at hreleased
      rw [← hrow, stamp_of_around (around.trans (around_onArena hin))] at hcredited
      have hpayload : n.arena.payload (span pre) = m.arena.payload (span pre) :=
        (payload_of_around around _).symm
      -- the new block is credited to the call first, then the release of the old one
      have hused : (m.movedBlock size site c b).used = true := Block.used_taken c size
      have hplaced : Credited (m.stamp site) site bs
          (pre ++ m.movedBlock size site c b :: (c.leftover size ++ post)) :=
        credited_placed hperm rfl fun z hz => hf.marked hused rfl hz
      have hall : Credited (m.stamp site) site bs bs' := by
        refine hplaced.trans hcredited
          (fun x hx => hperm.mem_iff.mpr (List.mem_cons_of_mem _ hx)) fun x hx => ?_
        rw [(dropped_iff hreleased).mp hx]
        exact hb
      rw [run_bind_ok hr, run_bind_ok (run_get n), run_bind_ok (run_onArena_ok hcopy), hoff,
        run_bind_ok hrun, hpayload]
      rw [← hoff]
      exact .done hf hmax room hfinal (around.trans ((around_onArena hin).trans haround))
        (hreleased.trans hperm) hall

end Machine

end GuardedHeap
