/-
  Proofs/Records.lean --- what headers remember.

  WHAT THIS FILE IS FOR.  The header of a used block remembers who asked for it, if
  that was traced; the header of a free one may remember where it was freed.  Blocks
  are cut, merged and trimmed, and what they remember is carried along, cleared or
  replaced on the way.  `Credited` says what a call may make of all this: blocks that
  stay remember what they did, new ones remember the call, and so does a free block
  exactly if the call released what lay there.  A block that is trimmed may end below
  what was released into it; its reach goes on to the old end of the row then.

  WHAT IS PROVED.  A release is credited to its call, nothing else marks a free block,
  and two calls of which the first releases nothing are credited as one.
-/
import GuardedHeap.Proofs.Order

set_option autoImplicit false

namespace GuardedHeap

/-! ## Records -/

/-- What a header remembers of the calls it came from. -/
structure Record where
  allocatedAt : Option CallSite
  allocatedBy : Option ContextId
  freedAt : Option CallSite
  deriving DecidableEq, Repr

def Header.record (h : Header) : Record := ⟨h.allocatedAt, h.allocatedBy, h.freedAt⟩

def Block.record (b : Block) : Record := ⟨b.allocatedAt, b.allocatedBy, b.freedAt⟩

/-- What a new block remembers of a call from a site. -/
def Machine.stamp (m : Machine) (site : CallSite) : Record :=
  ⟨if m.tracing then some site else none, if m.tracing then some m.context.id else none, none⟩

@[simp] theorem Block.record_header (b : Block) (prev next : Option Nat) :
    (b.header prev next).record = b.record := rfl

@[simp] theorem Block.record_taken (b : Block) (size : Nat) : (b.taken size).record = b.record := by
  unfold taken
  split <;> rfl

@[simp] theorem Block.record_fuse (b c : Block) : (b.fuse c).record = b.record := rfl

/-- A block that is merged with what follows it passes on its record. -/
theorem record_of_mergeAhead {x y : Block} {post back : List Block}
    (h : mergeAhead x post = y :: back) : y.record = x.record := by
  cases post with
  | nil =>
    cases h
    rfl
  | cons p rest =>
    by_cases hp : p.used = true
    · rw [mergeAhead, if_pos hp] at h
      cases h
      rfl
    · rw [mergeAhead, if_neg hp] at h
      cases h
      rfl

/-! ## Marks -/

/-- A free block that remembers where it was freed. -/
def Block.Remembers (b : Block) : Prop := b.used = false ∧ b.freedAt ≠ none

/-- A block of a row at an offset remembers where it was freed. -/
def Marked (off : Nat) (bs : List Block) (z : Nat × Block) : Prop :=
  z ∈ places off bs ∧ z.2.Remembers

section Marked

variable {off : Nat} {pre post : List Block} {c : Block} {z : Nat × Block}

theorem Block.not_remembers_of_used (h : c.used = true) : ¬ c.Remembers := by
  rintro ⟨hfree, -⟩
  rw [h] at hfree
  cases hfree

theorem Block.not_remembers_of_none (h : c.freedAt = none) : ¬ c.Remembers := fun hc => hc.2 h

theorem not_marked_nil : ¬ Marked off [] z := fun h => nomatch h.1

theorem marked_append : Marked off (pre ++ post) z ↔
    Marked off pre z ∨ Marked (off + span pre) post z := by
  unfold Marked
  rw [places_append, List.mem_append, or_and_right]

theorem marked_cons : Marked off (c :: post) z ↔
    z = (off, c) ∧ c.Remembers ∨ Marked (off + c.extent) post z := by
  unfold Marked
  rw [places, List.mem_cons, or_and_right]
  refine or_congr_left ⟨?_, ?_⟩
  · rintro ⟨rfl, hz⟩
    exact ⟨rfl, hz⟩
  · rintro ⟨rfl, hz⟩
    exact ⟨rfl, hz⟩

theorem marked_around (hc : ¬ c.Remembers) : Marked off (pre ++ c :: post) z ↔
    Marked off pre z ∨ Marked (off + span pre + c.extent) post z := by
  rw [marked_append, marked_cons]
  simp only [hc, and_false, false_or]

theorem marked_beside (h : Marked off pre z ∨ Marked (off + span pre + c.extent) post z) :
    Marked off (pre ++ c :: post) z := by
  rw [marked_append, marked_cons]
  exact h.imp_right Or.inr

theorem marked_of_used {d : Block} (hd : d.used = true) (he : d.extent = c.extent)
    (h : Marked off (pre ++ d :: post) z) : Marked off (pre ++ c :: post) z := by
  rw [marked_around (Block.not_remembers_of_used hd), he] at h
  exact marked_beside h

theorem marked_behind {stop stop' : Nat} {back : List Block} (hback : MergedAhead post back)
    (hspan : stop + span back = stop' + span post) (h : Marked stop back z) :
    Marked stop' post z := by
  rcases hback with rfl | ⟨y, rfl, -⟩
  · rwa [show stop' = stop by omega]
  · rw [span_cons] at hspan
    rw [marked_cons, show stop' + y.extent = stop by omega]
    exact Or.inr h

theorem Marked.bounds (h : Marked off pre z) :
    off ≤ z.1 ∧ z.1 + z.2.extent ≤ off + span pre := by
  obtain ⟨xs, ys, rfl, hz⟩ := mem_places_iff.mp (show (z.1, z.2) ∈ places off pre from h.1)
  rw [span_append, span_cons]
  omega

/-- In front of a used block no mark reaches that far. -/
theorem Marked.stop_ne (h : Marked off pre z) (hend : EndsUsed pre) :
    z.1 + z.2.extent ≠ off + span pre := by
  obtain ⟨xs, ys, rfl, hz⟩ := mem_places_iff.mp (show (z.1, z.2) ∈ places off pre from h.1)
  intro hstop
  rw [span_append, span_cons] at hstop
  cases ys with
  | nil =>
    rw [endsUsed_concat] at hend
    exact Block.not_remembers_of_used hend h.2
  | cons y rest =>
    have hpos := y.extent_pos
    rw [span_cons] at hstop
    omega

/-- What is left over of a block that was taken remembers nothing. -/
theorem marked_taken {size : Nat} {d : Block} (hle : size ≤ c.size) (hd : d.used = true)
    (hde : d.extent = (c.taken size).extent) :
    Marked off (pre ++ d :: (c.leftover size ++ post)) z ↔
      Marked off pre z ∨ Marked (off + span pre + c.extent) post z := by
  have hspan := c.extent_taken hle
  rw [marked_around (Block.not_remembers_of_used hd), hde, ← hspan]
  rcases c.leftover_cases size with ⟨-, hl⟩ | ⟨-, hl⟩
  · have hremnant : ¬ (c.remnant size).Remembers := Block.not_remembers_of_none rfl
    rw [hl, List.singleton_append, marked_cons, span_cons, span_nil, Nat.add_zero, Nat.add_assoc]
    simp only [hremnant, and_false, false_or, Nat.add_assoc]
  · rw [hl, List.nil_append, span_nil, Nat.add_zero]

end Marked

/-! ## Trimming -/

/-- Trimming takes the block away or leaves one in its place that remembers the same, and
changes it only at the end of the row. -/
theorem trimmed_cases (floor : Nat) (pre : List Block) (c : Block) (post : List Block) :
    (post = [] ∧ trimmed floor pre c post = pre) ∨
      ∃ d, trimmed floor pre c post = pre ++ d :: post ∧ d.used = c.used ∧
        d.freedAt = c.freedAt ∧ (post ≠ [] → d = c) := by
  unfold trimmed
  by_cases hpost : post = []
  · subst hpost
    rw [if_neg (fun h => h rfl)]
    split
    · exact Or.inl ⟨rfl, rfl⟩
    · split
      · exact Or.inr ⟨_, rfl, rfl, rfl, fun h => absurd rfl h⟩
      · exact Or.inr ⟨_, rfl, rfl, rfl, fun _ => rfl⟩
  · rw [if_pos hpost]
    exact Or.inr ⟨c, rfl, rfl, rfl, fun _ => rfl⟩

theorem marked_trimmed {floor : Nat} {pre post : List Block} {c : Block} {z : Nat × Block}
    (hc : c.freedAt = none) (h : Marked 0 (trimmed floor pre c post) z) :
    Marked 0 pre z ∨ Marked (span pre + c.extent) post z := by
  rcases trimmed_cases floor pre c post with ⟨-, hrow⟩ | ⟨d, hrow, -, hfreed, hsame⟩
  · rw [hrow] at h
    exact Or.inl h
  · rw [hrow, marked_around (Block.not_remembers_of_none (hfreed.trans hc)), Nat.zero_add] at h
    refine h.imp_right fun hz => ?_
    have hne : post ≠ [] := fun hnil => not_marked_nil (hnil ▸ hz)
    rwa [hsame hne] at hz

theorem marked_trimmed_used {floor : Nat} {pre post : List Block} {d c : Block}
    {z : Nat × Block} (hd : d.used = true) (hc : c.freedAt = none)
    (h : Marked 0 (trimmed floor (pre ++ [d]) c post) z) :
    Marked 0 pre z ∨ Marked (span (pre ++ [d]) + c.extent) post z := by
  refine (marked_trimmed hc h).imp_left fun hz => ?_
  exact ((marked_around (Block.not_remembers_of_used hd)).mp hz).resolve_right not_marked_nil

/-! ## Releasing -/

/-- A block lay where a free one is now, or behind its start where that one ends the
row. -/
def Reaches (top : Nat) (z x : Nat × Block) : Prop :=
  z.1 ≤ x.1 ∧ (x.1 + x.2.extent ≤ z.1 + z.2.extent ∨ z.1 + z.2.extent = top)

section Releasing

variable {pre post front back : List Block} {b c : Block} {z x : Nat × Block} {off top : Nat}

/-- A mark in front of a block does not reach it, unless it ends the row. -/
theorem Marked.not_reaches (h : Marked off pre z) (hx : off + span pre ≤ x.1)
    (htop : z.1 + z.2.extent ≠ top) : ¬ Reaches top z x := by
  have hbounds := h.bounds
  have hpos := x.2.extent_pos
  rintro ⟨-, hinside | hend⟩
  · omega
  · exact htop hend

theorem Marked.not_reaches_back (h : Marked off post z) (hx : x.1 < off) : ¬ Reaches top z x := by
  have hbounds := h.bounds
  rintro ⟨hstart, -⟩
  omega

/-- A block that was merged with its free neighbors covers what it was. -/
theorem merged_covers (hfront : MergedBack pre front) (hback : MergedAhead post back)
    (hspan : span (front ++ c :: back) = span (pre ++ b :: post)) :
    span front ≤ span pre ∧ span pre + b.extent ≤ span front + c.extent ∧
      span front + c.extent + span back = span pre + b.extent + span post := by
  rw [span_append, span_append, span_cons, span_cons] at hspan
  have hlow : span front ≤ span pre := by
    rcases hfront with rfl | ⟨p, rfl, -⟩
    · exact Nat.le_refl _
    · rw [span_append]
      exact Nat.le_add_right _ _
  have hback : span back ≤ span post := by
    rcases hback with rfl | ⟨y, rfl, -⟩
    · exact Nat.le_refl _
    · rw [span_cons]
      exact Nat.le_add_left _ _
  omega

theorem marked_of_mergedBack (hfront : MergedBack pre front) (h : Marked 0 front z) :
    Marked 0 (pre ++ b :: post) z := by
  refine marked_beside (Or.inl ?_)
  rcases hfront with rfl | ⟨p, rfl, -⟩
  · exact h
  · exact marked_append.mpr (Or.inl h)

/-- When a block was merged with its free neighbors and the row was trimmed, the marks
that do not reach it are the old ones, and the one that does is of this release. -/
theorem marked_released {floor : Nat} {site : CallSite} (ht : Tidy (front ++ c :: back))
    (hc : c.used = false) (hfreed : c.freedAt = some site) (hfront : MergedBack pre front)
    (hback : MergedAhead post back)
    (hspan : span (front ++ c :: back) = span (pre ++ b :: post))
    (h : Marked 0 (trimmed floor front c back) z) :
    (Marked 0 (pre ++ b :: post) z ∧
        ¬ Reaches (span (trimmed floor front c back)) z (span pre, b)) ∨
      (z.2.freedAt = some site ∧
        Reaches (span (trimmed floor front c back)) z (span pre, b)) := by
  obtain ⟨⟨-, hend⟩, -⟩ := (tidy_free hc).mp ht
  obtain ⟨hlow, hhigh, hsum⟩ := merged_covers hfront hback hspan
  rw [← Nat.zero_add (span front)] at hlow
  rcases trimmed_cases floor front c back with ⟨-, hrow⟩ | ⟨d, hrow, -, hdf, hsame⟩
  · -- the merged block is gone, and the row ends with a used one
    rw [hrow] at h ⊢
    have hstop := h.stop_ne hend
    rw [Nat.zero_add] at hstop
    exact Or.inl ⟨marked_of_mergedBack hfront h, h.not_reaches hlow hstop⟩
  · rw [hrow] at h ⊢
    rw [marked_append, marked_cons] at h
    rw [span_append, span_cons]
    rcases h with h | ⟨rfl, -⟩ | h
    · have hpos := d.extent_pos
      have hbounds := h.bounds
      exact Or.inl ⟨marked_of_mergedBack hfront h, h.not_reaches hlow (by omega)⟩
    · refine Or.inr ⟨hdf.trans hfreed, hlow, ?_⟩
      by_cases hne : back = []
      · -- trimming may have cut it below the block that was released
        subst hne
        rw [span_nil, Nat.add_zero, Nat.zero_add]
        exact Or.inr rfl
      · rw [hsame hne, Nat.zero_add]
        exact Or.inl hhigh
    · have hne : back ≠ [] := fun hnil => not_marked_nil (hnil ▸ h)
      rw [hsame hne] at h
      have hold : Marked (0 + span pre + b.extent) post z :=
        marked_behind hback (by omega) h
      refine Or.inl ⟨marked_beside (Or.inr hold), h.not_reaches_back ?_⟩
      have hpos := b.extent_pos
      show span pre < _
      omega

end Releasing

/-! ## Calls -/

/-- A live block is not there anymore. -/
def Dropped (bs bs' : List Block) (x : Nat × Block) : Prop :=
  x ∈ live 0 bs ∧ ∀ y ∈ live 0 bs', y.1 ≠ x.1

/-- Nothing that is remembered in a row has changed. -/
structure Unaltered (bs bs' : List Block) : Prop where
  stamped : ∀ y ∈ live 0 bs', ∃ x ∈ live 0 bs, x.1 = y.1 ∧ y.2.record = x.2.record
  kept : ∀ x ∈ live 0 bs, ∃ y ∈ live 0 bs', y.1 = x.1
  marked : ∀ z, Marked 0 bs' z → Marked 0 bs z

theorem Unaltered.refl (bs : List Block) : Unaltered bs bs :=
  ⟨fun y hy => ⟨y, hy, rfl, rfl⟩, fun x hx => ⟨x, hx, rfl⟩, fun _ hz => hz⟩

/-- What a call from a site makes of what is remembered in a row. -/
structure Credited (stamp : Record) (site : CallSite) (bs bs' : List Block) : Prop where
  /-- a live block remembers what the one in its place did, or the call that made it -/
  stamped : ∀ y ∈ live 0 bs',
    (∃ x ∈ live 0 bs, x.1 = y.1 ∧ y.2.record = x.2.record) ∨
      ((∀ x ∈ live 0 bs, x.1 ≠ y.1) ∧ y.2.record = stamp)
  /-- a mark is an old one that reaches nothing the call released, or it is of this call and
  reaches something that was -/
  freed : ∀ z, Marked 0 bs' z →
    (Marked 0 bs z ∧ ∀ x, Dropped bs bs' x → ¬ Reaches (span bs') z x) ∨
      (z.2.freedAt = some site ∧ ∃ x, Dropped bs bs' x ∧ Reaches (span bs') z x)

section Credited

variable {stamp : Record} {site : CallSite} {bs bs' bs'' : List Block} {off : Nat} {b c : Block}

theorem credited_of_kept
    (hstamped : ∀ y ∈ live 0 bs', (∃ x ∈ live 0 bs, x.1 = y.1 ∧ y.2.record = x.2.record) ∨
      ((∀ x ∈ live 0 bs, x.1 ≠ y.1) ∧ y.2.record = stamp))
    (hkept : ∀ x ∈ live 0 bs, ∃ y ∈ live 0 bs', y.1 = x.1)
    (hmarked : ∀ z, Marked 0 bs' z → Marked 0 bs z) : Credited stamp site bs bs' := by
  refine ⟨hstamped, fun z hz => Or.inl ⟨hmarked z hz, ?_⟩⟩
  rintro x ⟨hx, hgone⟩
  obtain ⟨y, hy, hsame⟩ := hkept x hx
  exact absurd hsame (hgone y hy)

theorem credited_placed (hperm : List.Perm (live 0 bs') ((off, b) :: live 0 bs))
    (hb : b.record = stamp) (hmarked : ∀ z, Marked 0 bs' z → Marked 0 bs z) :
    Credited stamp site bs bs' := by
  refine credited_of_kept ?_ (fun x hx =>
    ⟨x, hperm.mem_iff.mpr (List.mem_cons_of_mem _ hx), rfl⟩) hmarked
  intro y hy
  rcases List.mem_cons.mp (hperm.mem_iff.mp hy) with rfl | hy
  · exact Or.inr ⟨fun x hx => fst_ne_of_perm hperm.symm hx, hb⟩
  · exact Or.inl ⟨y, hy, rfl, rfl⟩

/-- A block that changed in its place remembers what it did. -/
theorem unaltered_replaced {pre post : List Block} (hu : b.used = true)
    (hlive : live 0 bs' = live 0 pre ++ (span pre, c) :: live (span pre + b.extent) post)
    (hc : c.record = b.record) (hmarked : ∀ z, Marked 0 bs' z → Marked 0 (pre ++ b :: post) z) :
    Unaltered (pre ++ b :: post) bs' := by
  have hold : live 0 (pre ++ b :: post) =
      live 0 pre ++ (span pre, b) :: live (span pre + b.extent) post := by
    rw [live_append, live_cons_used hu, Nat.zero_add]
  refine ⟨?_, ?_, hmarked⟩
  · intro y hy
    rw [hlive, List.mem_append, List.mem_cons] at hy
    rw [hold]
    rcases hy with hy | rfl | hy
    · exact ⟨y, List.mem_append_left _ hy, rfl, rfl⟩
    · exact ⟨_, List.mem_append_right _ List.mem_cons_self, rfl, hc⟩
    · exact ⟨y, List.mem_append_right _ (List.mem_cons_of_mem _ hy), rfl, rfl⟩
  · intro x hx
    rw [hold, List.mem_append, List.mem_cons] at hx
    rw [hlive]
    rcases hx with hx | rfl | hx
    · exact ⟨x, List.mem_append_left _ hx, rfl⟩
    · exact ⟨_, List.mem_append_right _ List.mem_cons_self, rfl⟩
    · exact ⟨x, List.mem_append_right _ (List.mem_cons_of_mem _ hx), rfl⟩

theorem Unaltered.credited (h : Unaltered bs bs') : Credited stamp site bs bs' :=
  credited_of_kept (fun y hy => Or.inl (h.stamped y hy)) h.kept h.marked

theorem Unaltered.not_dropped (h : Unaltered bs bs') {x : Nat × Block} : ¬ Dropped bs bs' x := by
  rintro ⟨hx, hgone⟩
  obtain ⟨y, hy, hsame⟩ := h.kept x hx
  exact hgone y hy hsame

theorem perm_released {pre post : List Block} (hu : b.used = true)
    (hlive : live 0 bs' = live 0 pre ++ live (span pre + b.extent) post) :
    List.Perm ((span pre, b) :: live 0 bs') (live 0 (pre ++ b :: post)) := by
  rw [hlive, live_append, live_cons_used hu, Nat.zero_add]
  exact List.perm_middle.symm

theorem dropped_iff (hperm : List.Perm ((off, b) :: live 0 bs') (live 0 bs)) {x : Nat × Block} :
    Dropped bs bs' x ↔ x = (off, b) := by
  constructor
  · rintro ⟨hx, hgone⟩
    rcases List.mem_cons.mp (hperm.mem_iff.mpr hx) with hx | hx
    · exact hx
    · exact absurd rfl (hgone x hx)
  · rintro rfl
    exact ⟨hperm.subset List.mem_cons_self, fun y hy => fst_ne_of_perm hperm hy⟩

/-- A release is credited to its call. -/
theorem credited_released (hperm : List.Perm ((off, b) :: live 0 bs') (live 0 bs))
    (hmarked : ∀ z, Marked 0 bs' z →
      (Marked 0 bs z ∧ ¬ Reaches (span bs') z (off, b)) ∨
        (z.2.freedAt = some site ∧ Reaches (span bs') z (off, b))) :
    Credited stamp site bs bs' := by
  refine ⟨fun y hy => Or.inl ⟨y, hperm.subset (List.mem_cons_of_mem _ hy), rfl, rfl⟩, ?_⟩
  intro z hz
  refine (hmarked z hz).imp (fun h => ⟨h.1, ?_⟩) fun h => ⟨h.1, (off, b), ?_, h.2⟩
  · intro x hx
    rw [(dropped_iff hperm).mp hx]
    exact h.2
  · exact (dropped_iff hperm).mpr rfl

/-- After a call that released nothing, the next one is credited as if it had been
the same call. -/
theorem Credited.trans (h : Credited stamp site bs bs') (h' : Credited stamp site bs' bs'')
    (hkept : ∀ x ∈ live 0 bs, x ∈ live 0 bs')
    (hdropped : ∀ x, Dropped bs' bs'' x → x ∈ live 0 bs) : Credited stamp site bs bs'' := by
  have hlost : ∀ x, Dropped bs bs'' x ↔ Dropped bs' bs'' x := fun x =>
    ⟨fun hx => ⟨hkept x hx.1, hx.2⟩, fun hx => ⟨hdropped x hx, hx.2⟩⟩
  refine ⟨?_, ?_⟩
  · intro z hz
    rcases h'.stamped z hz with ⟨y, hy, hyz, hrecord⟩ | ⟨hnew, hrecord⟩
    · rw [← hyz, hrecord]
      exact h.stamped y hy
    · exact Or.inr ⟨fun x hx => hnew x (hkept x hx), hrecord⟩
  · intro z hz
    simp only [hlost]
    refine (h'.freed z hz).imp_left fun ⟨hmarked, hreach⟩ => ⟨?_, hreach⟩
    rcases h.freed z hmarked with ⟨hold, -⟩ | ⟨-, x, hx, -⟩
    · exact hold
    · exact absurd rfl (hx.2 x (hkept x hx.1))

end Credited

end GuardedHeap
